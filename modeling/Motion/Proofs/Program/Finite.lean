/-
# The coordinates of a program are finite

A word whose value is not finite is no word: `Scalar.read` rejects it.  So nothing but finite values
gets into a command, and this module follows them to every place where a command takes a coordinate
from, which are three: its own words, the zeros that stand for words left out, and in modal mode the
target of the line before.  The position of the tool is made of such targets again.

All that is asked of the arithmetic is that zero is finite.
-/
import Motion.Proofs.Program.Loading
import Motion.Proofs.Toolpath.History

namespace Motion

variable {α : Type} [Scalar α]

/-! ## 1. Words -/

theorem isFinite_of_read {t : Text} {v : α} (h : Scalar.read t = .ok v) : Scalar.isFinite v := by
  unfold Scalar.read at h
  split at h
  · cases h
  · cases h
  · simp only at h
    split at h
    · cases h
      assumption
    · cases h
  · cases h
  · cases h

/-- What a reader that is not at fault gives is what it has read, passed on. -/
theorem exists_of_map_eq_ok {ε ε' β γ : Type} {r : Except ε β} {f : β → γ} {fault : ε → ε'} {c : γ}
    (h : (r.map f).mapError fault = .ok c) : ∃ b, r = .ok b ∧ f b = c := by
  cases r with
  | error e => cases h
  | ok b => exact ⟨b, rfl, Except.ok.inj h⟩

theorem isFinite_of_address_read {payload : Text} {a : Address} {f : Field} {v : α}
    (h : a.read payload = .ok (.value f v)) : Scalar.isFinite v := by
  cases a with
  | field g =>
    obtain ⟨w, hw, heq⟩ := exists_of_map_eq_ok h
    cases heq
    exact isFinite_of_read hw
  | _ =>
    obtain ⟨n, -, heq⟩ := exists_of_map_eq_ok h
    cases heq

/-- **No word sets a value that is not finite.** -/
theorem isFinite_of_mem_entries {text : Text} {f : Field} {v : α}
    (h : .value f v ∈ entries text) : Scalar.isFinite v := by
  obtain ⟨word, -, hword⟩ := List.mem_filterMap.mp h
  cases word with
  | nil => cases hword
  | cons letter payload =>
    cases haddress : Address.ofLetter? letter with
    | none => simp [readWord, haddress] at hword
    | some a =>
      cases hread : (a.read payload : Except WordFault (Entry α)) with
      | error fault => simp [readWord, haddress, hread] at hword
      | ok e =>
        have heq : e = .value f v := by simpa [readWord, haddress, hread] using hword
        exact isFinite_of_address_read (heq ▸ hread)

/-! ## 2. Commands -/

/-- The coordinates of a position are finite. -/
structure Point.IsFinite (p : Point α) : Prop where
  x : Scalar.isFinite p.x
  y : Scalar.isFinite p.y
  z : Scalar.isFinite p.z

/-- The coordinates of a command are finite. -/
structure Command.IsFinite (c : Command α) : Prop where
  target : c.target.IsFinite
  i : Scalar.isFinite c.offset.x
  j : Scalar.isFinite c.offset.y

theorem Command.IsFinite.set {c : Command α} (h : c.IsFinite) {e : Entry α}
    (he : ∀ f v, e = .value f v → Scalar.isFinite v) : (c.set e).IsFinite := by
  obtain ⟨⟨hx, hy, hz⟩, hi, hj⟩ := h
  cases e with
  | code code => exact ⟨⟨hx, hy, hz⟩, hi, hj⟩
  | value f v =>
    have hv : Scalar.isFinite v := he f v rfl
    cases f with
    | x => exact ⟨⟨hv, hy, hz⟩, hi, hj⟩
    | y => exact ⟨⟨hx, hv, hz⟩, hi, hj⟩
    | z => exact ⟨⟨hx, hy, hv⟩, hi, hj⟩
    | i => exact ⟨⟨hx, hy, hz⟩, hv, hj⟩
    | j => exact ⟨⟨hx, hy, hz⟩, hi, hv⟩
    | feed => exact ⟨⟨hx, hy, hz⟩, hi, hj⟩

variable (hzero : Scalar.isFinite (Scalar.zero : α))
include hzero

theorem Point.isFinite_origin : (Point.origin : Point α).IsFinite := ⟨hzero, hzero, hzero⟩

theorem isFinite_readLine (mode : CoordinateMode) {carried : Point α} (h : carried.IsFinite)
    (line : UInt32) (text : Text) : (readLine mode carried line text).IsFinite := by
  have hblank : (Command.blank mode carried line text).IsFinite := by
    cases mode
    · exact ⟨Point.isFinite_origin hzero, hzero, hzero⟩
    · exact ⟨h, hzero, hzero⟩
  refine List.foldlRecOn (entries text) Command.set hblank ?_
  intro c hc e he
  exact hc.set fun f v hv => isFinite_of_mem_entries (hv ▸ he)

theorem isFinite_of_mem_readLines {mode : CoordinateMode} {carried : Point α}
    (h : carried.IsFinite) {lines : List (UInt32 × Text)} {c : Command α}
    (hc : c ∈ readLines mode carried lines) : c.IsFinite := by
  induction lines generalizing carried with
  | nil => simp [readLines] at hc
  | cons e rest ih =>
    have hfirst := isFinite_readLine hzero mode h e.1 e.2
    rcases List.mem_cons.mp hc with rfl | hc
    · exact hfirst
    · exact ih hfirst.target hc

/-- **The coordinates of every command of every text are finite.** -/
theorem isFinite_of_mem_ofText {o : Options} {t : Text} {c : Command α}
    (hc : c ∈ (Program.ofText o t).commands) : c.IsFinite := by
  rw [Program.ofText_eq] at hc
  exact isFinite_of_mem_readLines hzero (Point.isFinite_origin hzero) hc

omit hzero

/-! ## 3. Positions -/

/-- Where commands with finite coordinates take the tool is finite. -/
theorem isFinite_positionAfter {start : Point α} (h : start.IsFinite) {cs : List (Command α)}
    (hcs : ∀ c ∈ cs, c.IsFinite) : (positionAfter start cs).IsFinite := by
  induction cs using List.reverseRecOn with
  | nil => exact h
  | append_singleton cs c ih =>
    have hbefore := ih fun c' hc' => hcs c' (by simp [hc'])
    have htarget := (hcs c (by simp)).target
    rw [positionAfter_concat]
    refine ⟨?_, ?_, ?_⟩
    all_goals
      simp only [Command.arrival]
      split
    · exact htarget.x
    · exact hbefore.x
    · exact htarget.y
    · exact hbefore.y
    · exact htarget.z
    · exact hbefore.z

/-- One command with finite coordinates takes the tool to a finite position, wherever it is, known
or not. -/
theorem isFinite_step {position : Option (Point α)} (h : ∀ p ∈ position, p.IsFinite)
    {c : Command α} (hc : c.IsFinite) : ∀ p ∈ (step position c).1, p.IsFinite := by
  cases hmotion : c.isMotion with
  | false =>
    rw [step_of_not_motion hmotion]
    exact h
  | true =>
    cases position with
    | none =>
      rw [step_none hmotion]
      rintro p ⟨rfl⟩
      exact hc.target
    | some q =>
      have harrival : c.arrival q = positionAfter q [c] := (positionAfter_concat q [] c).symm
      rw [step_some, harrival]
      rintro p ⟨rfl⟩
      exact isFinite_positionAfter (h q rfl) (by simpa using hc)

theorem isFinite_position {start : Option (Point α)} (h : ∀ p ∈ start, p.IsFinite)
    {cs : List (Command α)} (hcs : ∀ c ∈ cs, c.IsFinite) :
    ∀ p ∈ (Trace.ofCommands start cs).position, p.IsFinite := by
  induction cs using List.reverseRecOn with
  | nil => exact h
  | append_singleton cs c ih =>
    rw [Trace.ofCommands_concat, Trace.feed_eq]
    exact isFinite_step (ih fun c' hc' => hcs c' (by simp [hc'])) (hcs c (by simp))

end Motion
