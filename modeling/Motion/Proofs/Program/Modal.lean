/-
# In modal mode the parser and the trace agree on where the tool is

Two states are kept of one thing.  The loader hands the target of every command to the next line,
where it stands for the axes that are left out; the trace hands on the position of the tool.  They
are updated by different rules:

| line             | the loader's target             | the position                    |
|------------------|---------------------------------|---------------------------------|
| `G0`, `G1`       | changed by the words            | the target                      |
| `G2`, `G3`       | changed by the words            | the target, at the height before|
| anything else    | changed by the words            | as before                       |

So they part at a coordinate on a line that moves nothing, and at a `Z` on an arc.  This module
proves that nothing else parts them: in a modal program without such words both are the same after
every command (`modal_position_eq_target`).  Then an axis left out, or given by a word that cannot
be read, stands for where the tool is, and the tool does not move along it.
-/
import Motion.Proofs.Number.DoubleValue
import Motion.Proofs.Program.Finite

namespace Motion

variable {α : Type}

/-! ## 1. Axes -/

/-- The fields that are axes. -/
def Field.isAxis : Field → Bool
  | x => true
  | y => true
  | z => true
  | _ => false

/-- The coordinate of a position that a field sets, if it is an axis. -/
def Point.coordinate? (p : Point α) : Field → Option α
  | .x => some p.x
  | .y => some p.y
  | .z => some p.z
  | _ => none

theorem Point.eq_of_coordinate? {p q : Point α}
    (h : ∀ f : Field, f.isAxis → p.coordinate? f = q.coordinate? f) : p = q := by
  obtain ⟨px, py, pz⟩ := p
  obtain ⟨qx, qy, qz⟩ := q
  cases h .x rfl
  cases h .y rfl
  cases h .z rfl
  rfl

theorem coordinate?_set_of_ne {f g : Field} (h : g ≠ f) (v : α) (c : Command α) :
    (c.set (.value g v)).target.coordinate? f = c.target.coordinate? f := by
  cases g <;> cases f <;> simp_all [Command.set, Point.coordinate?]

/-- **A coordinate without a word stays**, whatever the other words of the line are. -/
theorem coordinate?_foldl_set {f : Field} {es : List (Entry α)} (h : ∀ v, .value f v ∉ es)
    (c : Command α) : (es.foldl Command.set c).target.coordinate? f = c.target.coordinate? f := by
  induction es generalizing c with
  | nil => rfl
  | cons e rest ih =>
    rw [List.foldl_cons, ih fun v hv => h v (List.mem_cons_of_mem _ hv)]
    cases e with
    | code code => rfl
    | value g v =>
      refine coordinate?_set_of_ne (fun heq => h v ?_) v c
      rw [heq]
      exact List.mem_cons_self

variable [Scalar α]

/-! ## 2. Lines and what they are read after -/

/-- **Every command is its line, read after the target of the command before it.** -/
theorem eq_readLine_of_readLines_eq {mode : CoordinateMode} {carried : Point α}
    {lines : List (UInt32 × Text)} {before : List (Command α)} {c : Command α}
    {after : List (Command α)} (h : readLines mode carried lines = before ++ c :: after) :
    c = readLine mode (lastTarget carried before) c.line c.source := by
  induction lines generalizing carried before with
  | nil => simp [readLines] at h
  | cons e rest ih =>
    rw [readLines] at h
    cases before with
    | nil =>
      obtain ⟨rfl, -⟩ := List.cons.inj h
      rw [line_readLine, source_readLine]
      rfl
    | cons c' before =>
      obtain ⟨rfl, hrest⟩ := List.cons.inj h
      rw [lastTarget_cons]
      exact ih hrest

/-- In modal mode an axis without a word stands for where the line before left it. -/
theorem coordinate?_readLine_modal {carried : Point α} {line : UInt32} {text : Text} {f : Field}
    (h : ∀ v : α, .value f v ∉ entries text) :
    (readLine .modal carried line text).target.coordinate? f = carried.coordinate? f :=
  coordinate?_foldl_set h _

/-! ## 3. The position and the target -/

/-- The words of the command move its target only as its code moves the tool: there is no axis word
without a motion code, and no Z word on an arc. -/
structure Command.IsFaithful (c : Command α) : Prop where
  axes : c.isMotion = false → ∀ f : Field, f.isAxis → ∀ v : α, .value f v ∉ entries c.source
  height : c.setsHeight = false → ∀ v : α, .value .z v ∉ entries c.source

/-- What the words of a command must not say, by its code. -/
theorem isFaithful_of_words {c : Command α}
    (haxes : c.isMotion ∨ ∀ (f : Field) (v : α), f.isAxis → .value f v ∉ entries c.source)
    (harc : c.code = .preparatory 2 ∨ c.code = .preparatory 3 →
      ∀ v : α, .value .z v ∉ entries c.source) : c.IsFaithful where
  axes hmotion f hf v := haxes.resolve_left (by simp [hmotion]) f v hf
  height hheight v := by
    rcases c.code.motion_cases with hcode | hcode | hcode | hcode | ⟨hmotion, -⟩
    · simp [Command.setsHeight, hcode] at hheight
    · simp [Command.setsHeight, hcode] at hheight
    · exact harc (Or.inl hcode) v
    · exact harc (Or.inr hcode) v
    · exact haxes.resolve_left (by simp [Command.isMotion, hmotion]) .z v rfl

/-- **One line.**  It takes the tool from the target of the line before to its own target. -/
theorem arrival_eq_target {carried : Point α} {c : Command α}
    (hline : c = readLine .modal carried c.line c.source) (hc : c.IsFaithful) :
    c.arrival carried = c.target := by
  have hkeep {f : Field} (h : ∀ v : α, .value f v ∉ entries c.source) :
      carried.coordinate? f = c.target.coordinate? f := by
    rw [hline]
    exact (coordinate?_readLine_modal h).symm
  cases hmotion : c.isMotion with
  | false =>
    rw [Command.arrival_of_not_motion hmotion]
    exact Point.eq_of_coordinate? fun f hf => hkeep (hc.axes hmotion f hf)
  | true =>
    cases hheight : c.setsHeight with
    | true => simp [Command.arrival, hmotion, hheight]
    | false =>
      have hz : carried.z = c.target.z := Option.some.inj (hkeep (hc.height hheight))
      simp [Command.arrival, hmotion, hheight, hz]

/-- **The whole program.** -/
theorem positionAfter_eq_lastTarget {carried : Point α} {lines : List (UInt32 × Text)}
    {before after : List (Command α)} (h : readLines .modal carried lines = before ++ after)
    (hfaithful : ∀ c ∈ before, c.IsFaithful) :
    positionAfter carried before = lastTarget carried before := by
  induction before using List.reverseRecOn generalizing after with
  | nil => rfl
  | append_singleton before c ih =>
    rw [List.append_assoc, List.singleton_append] at h
    have hbefore := ih h fun c' hc' => hfaithful c' (List.mem_append_left _ hc')
    rw [positionAfter_concat, hbefore,
      arrival_eq_target (eq_readLine_of_readLines_eq h) (hfaithful c (by simp))]
    simp [lastTarget]

/-- The distance of a finite position from itself is zero. -/
theorem Point.distance_self {p : Point Float} (hp : p.IsFinite) : p.distance p = Scalar.zero := by
  have hsquare {a : Float} (ha : a.isFinite) : (a - a) * (a - a) = Scalar.zero :=
    Double.mul_self_of_value_eq_zero (Double.value_sub_self ha)
  have hdistance : p.distance p = Float.sqrt ((p.x - p.x) * (p.x - p.x) +
      (p.y - p.y) * (p.y - p.y) + (p.z - p.z) * (p.z - p.z)) := rfl
  rw [hdistance, hsquare hp.x, hsquare hp.y, hsquare hp.z]
  rfl

/-- **In modal mode the position of the tool is the target of the last line.**

Take a program in which every line is a motion command or has no readable axis word, and no arc has
a readable Z word.  After every command the tool is at the target of that command.  An axis without
a readable word stands for where the tool is, and a straight line without any axis word has length
zero. -/
theorem modal_position_eq_target (o : Options) (ho : o.mode = .modal) (t : Text)
    (hlines : ∀ c ∈ (Program.ofText o t : Program Float).commands,
      c.isMotion ∨ ∀ (f : Field) (v : Float), f.isAxis → .value f v ∉ entries c.source)
    (harcs : ∀ c ∈ (Program.ofText o t : Program Float).commands,
      c.code = .preparatory 2 ∨ c.code = .preparatory 3 →
        ∀ v : Float, .value .z v ∉ entries c.source)
    (before : List (Command Float)) (c : Command Float) (after : List (Command Float))
    (hsplit : (Program.ofText o t : Program Float).commands = before ++ c :: after) :
    ∃ p, (Trace.ofCommands (some .origin) before).position = some p ∧
      (Trace.ofCommands (some .origin) (before ++ [c])).position = some c.target ∧
      (∀ f : Field, (∀ v : Float, .value f v ∉ entries c.source) →
        c.target.coordinate? f = p.coordinate? f) ∧
      (c.code = .preparatory 1 →
        (∀ (f : Field) (v : Float), f.isAxis → .value f v ∉ entries c.source) →
        step (some p) c = (some p, some (.line p p)) ∧
          (Segment.line p p).length = Scalar.zero) := by
  have hreading : (Program.ofText o t : Program Float).commands =
      readLines .modal .origin (codeLines o.comment 1 t.lines) := by
    rw [Program.ofText_eq, ho]
    rfl
  have hfaithful : ∀ c ∈ (Program.ofText o t : Program Float).commands, c.IsFaithful :=
    fun c hc => isFaithful_of_words (hlines c hc) (harcs c hc)
  have hfinite : (positionAfter .origin before : Point Float).IsFinite :=
    isFinite_positionAfter (Point.isFinite_origin Double.isFinite_zero) fun c' hc' =>
      isFinite_of_mem_ofText Double.isFinite_zero (hsplit ▸ List.mem_append_left _ hc')
  rw [hsplit] at hreading hfaithful
  have hbefore : positionAfter .origin before = lastTarget .origin before :=
    positionAfter_eq_lastTarget hreading.symm
      fun c' hc' => hfaithful c' (List.mem_append_left _ hc')
  have hline := eq_readLine_of_readLines_eq hreading.symm
  rw [← hbefore] at hline
  have harrival := arrival_eq_target hline (hfaithful c (by simp))
  have hkeep : ∀ f : Field, (∀ v : Float, .value f v ∉ entries c.source) →
      c.target.coordinate? f = (positionAfter .origin before : Point Float).coordinate? f := by
    intro f hf
    rw [hline]
    exact coordinate?_readLine_modal hf
  refine ⟨positionAfter .origin before, by rw [Trace.ofCommands_some], ?_, hkeep, ?_⟩
  · rw [Trace.ofCommands_some, positionAfter_concat, harrival]
  · intro hcode hwords
    have htarget : c.target = positionAfter .origin before :=
      Point.eq_of_coordinate? fun f hf => hkeep f fun v => hwords f v hf
    refine ⟨?_, Point.distance_self hfinite⟩
    rw [step_some, harrival, htarget]
    simp [Command.isMotion, Code.isMotion, Command.segmentFrom, Code.number, hcode, htarget]

/-- A line to (1, 0) and a line without words: the second one starts and ends there. -/
theorem modal_position_eq_target_two_lines :
    let first : Command Float := ⟨.preparatory 1, ⟨1, 0, 0⟩, ⟨0, 0⟩, 0, 1, "G1 X1".toList⟩
    let second : Command Float := ⟨.preparatory 1, ⟨1, 0, 0⟩, ⟨0, 0⟩, 0, 2, "G1".toList⟩
    (Program.ofText ⟨.modal, ';'⟩ "G1 X1\nG1".toList : Program Float).commands =
        [first, second] ∧
      ∃ p, (Trace.ofCommands (some .origin) [first]).position = some p ∧
        (Trace.ofCommands (some .origin) [first, second]).position = some second.target ∧
        step (some p) second = (some p, some (.line p p)) ∧
        (Segment.line p p).length = Scalar.zero := by
  intro first second
  have hcommands : (Program.ofText ⟨.modal, ';'⟩ "G1 X1\nG1".toList : Program Float).commands =
      [first, second] := rfl
  have hentries : (entries second.source : List (Entry Float)) = [.code (.preparatory 1)] := rfl
  obtain ⟨p, hp, hposition, -, hline⟩ := modal_position_eq_target ⟨.modal, ';'⟩ rfl
    "G1 X1\nG1".toList
    (by
      rw [hcommands]
      simp [first, second, Command.isMotion, Code.isMotion])
    (by
      rw [hcommands]
      simp [first, second])
    [first] second [] hcommands
  exact ⟨hcommands, p, hp, hposition, hline rfl (by simp [hentries])⟩

end Motion
