/-
# What modal mode carries

In modal mode a line is read after the target of the line before it, so a coordinate that a line
leaves out comes through any number of lines, whatever these are about.  This module says from
where: from the latest word that gives it, on the line itself or on any line before
(`Point.afterLines`).  Words that cannot be read give nothing, and lines without code do not count.

That is all that the two modes differ in.  A command without its target, and everything that has to
be reported, is read from its own line, in the same way in both (`readLine_modal`).  In reset mode
the target is too, so modal mode is reset mode with other targets
(`modal_eq_reset_with_latest_coordinates`).
-/
import Motion.Proofs.Program.Loading

namespace Motion

/-! ## 1. The values that lines give to a field -/

/-- The letter of the words that set a field, in upper case. -/
def Field.letter : Field → Char
  | x => 'X'
  | y => 'Y'
  | z => 'Z'
  | i => 'I'
  | j => 'J'
  | feed => 'F'

variable {α : Type}

/-- The value that an entry gives to a field. -/
def Entry.valueFor? (f : Field) : Entry α → Option α
  | .code _ => none
  | .value g v => if g = f then some v else none

variable [Scalar α]

/-- The value that a word gives to a field: the word starts with the letter of the field, in either
case, and goes on with a coordinate. -/
def Field.valueIn? (f : Field) : Text → Option α
  | [] => none
  | letter :: payload =>
    if letter.toUpper = f.letter then (Scalar.read payload).toOption else none

/-- The values that the words of some lines give to a field, the latest one last. -/
def Field.values (f : Field) (texts : List Text) : List α :=
  texts.flatMap fun text => text.words.filterMap f.valueIn?

/-- The latest values that some lines give to the coordinates, and those of a position where the
lines give none. -/
def Point.afterLines (p : Point α) (texts : List Text) : Point α where
  x := (Field.x.values texts).getLastD p.x
  y := (Field.y.values texts).getLastD p.y
  z := (Field.z.values texts).getLastD p.z

/-- The letter of an address, in upper case. -/
def Address.letter : Address → Char
  | preparatory => 'G'
  | miscellaneous => 'M'
  | field f => f.letter

/-- Every address has one letter. -/
theorem Address.ofLetter?_eq_some_iff {letter : Char} {a : Address} :
    ofLetter? letter = some a ↔ letter.toUpper = a.letter := by
  unfold ofLetter?
  constructor
  · intro h
    split at h <;> cases h <;> assumption
  · intro h
    rw [h]
    rcases a with _ | _ | f
    · rfl
    · rfl
    · cases f <;> rfl

theorem Address.ofLetter?_eq_field_iff {letter : Char} {f : Field} :
    ofLetter? letter = some (.field f) ↔ letter.toUpper = f.letter :=
  ofLetter?_eq_some_iff (a := .field f)

/-- **What a word gives to a field is what its entry gives.**  A word that cannot be read, and one
whose letter is no address, gives nothing. -/
theorem valueIn?_eq (f : Field) (word : Text) :
    f.valueIn? word =
      match (readWord word : Option (Except WordFault (Entry α))) with
      | some (.ok e) => e.valueFor? f
      | _ => none := by
  cases word with
  | nil => rfl
  | cons letter payload =>
    have hfield : Address.ofLetter? letter = some (.field f) ↔ letter.toUpper = f.letter :=
      Address.ofLetter?_eq_field_iff
    cases haddress : Address.ofLetter? letter with
    | none =>
      rw [haddress] at hfield
      simp [readWord, Field.valueIn?, haddress, ← hfield]
    | some a =>
      rw [haddress] at hfield
      cases a with
      | field g =>
        by_cases hg : g = f
        · cases hread : (Scalar.read payload : Except RealFault α) <;>
            simp [readWord, Field.valueIn?, haddress, ← hfield, hg, Address.read, hread,
              Except.map, Except.mapError, Except.toOption, Entry.valueFor?]
        · cases hread : (Scalar.read payload : Except RealFault α) <;>
            simp [readWord, Field.valueIn?, haddress, ← hfield, hg, Address.read, hread,
              Except.map, Except.mapError, Entry.valueFor?]
      | _ =>
        cases hread : Text.readInteger payload <;>
          simp [readWord, Field.valueIn?, haddress, ← hfield, Address.read, hread,
            Except.map, Except.mapError, Entry.valueFor?]

/-- The entries of a line give to a field what its words give. -/
theorem filterMap_valueFor?_entries (f : Field) (text : Text) :
    (entries text : List (Entry α)).filterMap (Entry.valueFor? f) = f.values [text] := by
  rw [entries, Field.values, List.filterMap_filterMap, List.flatMap_singleton]
  refine List.filterMap_congr fun word _ => ?_
  rw [valueIn?_eq]
  cases hread : (readWord word : Option (Except WordFault (Entry α))) with
  | none => rfl
  | some r => cases r <;> rfl

/-- The latest value of more lines. -/
theorem getLastD_values_cons (f : Field) (text : Text) (rest : List Text) (v : α) :
    (f.values (text :: rest)).getLastD v =
      (f.values rest).getLastD ((f.values [text]).getLastD v) := by
  simp [Field.values, List.getLastD_eq_getLast?, List.getLast?_append]

theorem Point.afterLines_cons (p : Point α) (text : Text) (rest : List Text) :
    p.afterLines (text :: rest) = (p.afterLines [text]).afterLines rest := by
  have hlatest (f : Field) := getLastD_values_cons (α := α) f text rest
  rw [Point.afterLines, hlatest, hlatest, hlatest]
  rfl

/-! ## 2. One line -/

omit [Scalar α]

/-- The command with another target. -/
def Command.withTarget (c : Command α) (p : Point α) : Command α := { c with target := p }

/-- **One entry** gives at most one coordinate. -/
theorem target_set (c : Command α) (e : Entry α) :
    (c.set e).target =
      ⟨(e.valueFor? .x).getD c.target.x, (e.valueFor? .y).getD c.target.y,
        (e.valueFor? .z).getD c.target.z⟩ := by
  cases e with
  | code code => rfl
  | value f v => cases f <;> rfl

/-- **The last one wins.**  What every step of a fold either keeps or replaces is in the end what
the last step that replaced it has put there. -/
theorem foldl_latest {σ ε β : Type} {step : σ → ε → σ} (get : σ → β) (given? : ε → Option β)
    (hstep : ∀ s e, get (step s e) = (given? e).getD (get s)) (s : σ) (es : List ε) :
    get (es.foldl step s) = (es.filterMap given?).getLastD (get s) := by
  induction es generalizing s with
  | nil => rfl
  | cons e rest ih =>
    rw [List.foldl_cons, ih, hstep]
    cases h : given? e with
    | none => rw [List.filterMap_cons_none h, Option.getD_none]
    | some b => rw [List.filterMap_cons_some h, List.getLastD_cons, Option.getD_some]

/-- **All entries of a line** give the latest values among them. -/
theorem target_foldl_set (c : Command α) (es : List (Entry α)) :
    (es.foldl Command.set c).target =
      ⟨(es.filterMap (Entry.valueFor? .x)).getLastD c.target.x,
        (es.filterMap (Entry.valueFor? .y)).getLastD c.target.y,
        (es.filterMap (Entry.valueFor? .z)).getLastD c.target.z⟩ := by
  have hx := foldl_latest (fun c : Command α => c.target.x) (Entry.valueFor? .x)
    (fun c e => by rw [target_set]) c es
  have hy := foldl_latest (fun c : Command α => c.target.y) (Entry.valueFor? .y)
    (fun c e => by rw [target_set]) c es
  have hz := foldl_latest (fun c : Command α => c.target.z) (Entry.valueFor? .z)
    (fun c e => by rw [target_set]) c es
  rw [← hx, ← hy, ← hz]

/-- Entries do to everything beside the target what they would do with any other target. -/
theorem foldl_set_withTarget (c : Command α) (p : Point α) (es : List (Entry α)) :
    ∃ q, es.foldl Command.set (c.withTarget p) = (es.foldl Command.set c).withTarget q := by
  induction es generalizing c p with
  | nil => exact ⟨p, rfl⟩
  | cons e rest ih =>
    have hset : ∃ q, (c.withTarget p).set e = (c.set e).withTarget q := by
      cases e with
      | code code => exact ⟨p, rfl⟩
      | value f v => cases f <;> exact ⟨_, rfl⟩
    obtain ⟨q, hq⟩ := hset
    rw [List.foldl_cons, hq]
    exact ih (c.set e) q

variable [Scalar α]

/-- **A line in modal mode** is the line in reset mode with another target: the latest values of its
own words, and those of the line before where it has none. -/
theorem readLine_modal (carried : Point α) (line : UInt32) (text : Text) :
    readLine .modal carried line text =
      (readLine .reset .origin line text).withTarget (carried.afterLines [text]) := by
  obtain ⟨q, hq⟩ := foldl_set_withTarget (.blank .reset .origin line text) carried (entries text)
  have hread : readLine .modal carried line text =
      (readLine .reset .origin line text).withTarget q := hq
  have htarget : (readLine .modal carried line text).target = carried.afterLines [text] := by
    simp only [readLine, target_foldl_set, filterMap_valueFor?_entries]
    rfl
  rw [hread] at htarget ⊢
  rw [← htarget]
  rfl

/-! ## 3. The whole program -/

/-- **The lines of a program in modal mode.**  What is carried to a line is what all lines before it
have given. -/
theorem getElem?_readLines_modal (carried : Point α) (lines : List (UInt32 × Text)) (n : Nat) :
    (readLines .modal carried lines)[n]? =
      lines[n]?.map fun e =>
        (readLine .reset .origin e.1 e.2).withTarget
          (carried.afterLines ((lines.take (n + 1)).map Prod.snd)) := by
  induction lines generalizing carried n with
  | nil => rfl
  | cons e rest ih =>
    rw [readLines, readLine_modal]
    cases n with
    | zero => rfl
    | succ n =>
      have hafter := carried.afterLines_cons e.2 ((rest.take (n + 1)).map Prod.snd)
      rw [List.getElem?_cons_succ, ih, List.getElem?_cons_succ, List.take_succ_cons, List.map_cons,
        hafter]
      rfl

/-- In reset mode every line is read by itself. -/
theorem readLines_reset_eq_map (carried : Point α) (lines : List (UInt32 × Text)) :
    readLines .reset carried lines = lines.map fun e => readLine .reset .origin e.1 e.2 := by
  induction lines generalizing carried with
  | nil => rfl
  | cons e rest ih =>
    rw [readLines, ih, List.map_cons]
    rfl

/-- **Modal mode is reset mode with the latest coordinates.**

Number the lines on which code is left.  In reset mode the commands are these lines, each read by
itself.  In modal mode the n-th command is the same one but for its target, and each coordinate of
that is the latest value that a word of the n-th line or of a line before it gives, or zero if
there is none.  Both modes report the same. -/
theorem modal_eq_reset_with_latest_coordinates (comment : Char) (t : Text) :
    let lines := codeLines comment 1 t.lines
    let modal : Program α := .ofText ⟨.modal, comment⟩ t
    let reset : Program α := .ofText ⟨.reset, comment⟩ t
    modal.diagnostics = reset.diagnostics ∧
      reset.commands = lines.map (fun e => readLine .reset .origin e.1 e.2) ∧
      ∀ n, modal.commands[n]? = reset.commands[n]?.map fun c : Command α =>
        c.withTarget (Point.origin.afterLines ((lines.take (n + 1)).map Prod.snd)) := by
  intro lines modal reset
  have hmodal : modal = .ofLines .modal .origin lines := Program.ofText_eq ⟨.modal, comment⟩ t
  have hreset : reset = .ofLines .reset .origin lines := Program.ofText_eq ⟨.reset, comment⟩ t
  have hcommands : reset.commands = lines.map (fun e => readLine .reset .origin e.1 e.2) := by
    rw [hreset]
    exact readLines_reset_eq_map .origin lines
  refine ⟨by rw [hmodal, hreset]; rfl, hcommands, fun n => ?_⟩
  rw [hmodal, hcommands, List.getElem?_map, Option.map_map]
  exact getElem?_readLines_modal .origin lines n

end Motion
