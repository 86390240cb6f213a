/-
# A line, word by word

What a line says is fixed by what its words say, and what a word says by its letter and the text
behind it.  `Gives` is the rule for a word, in terms of the grammars of numbers; a word that should
give something and does not is malformed (`IsMalformed`).  A line then says, of its code and of each
of its fields, what the last word says that gives them (`Latest`), and has one warning for every
malformed word.

`line_says_what_its_words_say` is this for any line, read after any others.  Since `Latest` passes
over words that give nothing, a malformed word neither stops the reading nor takes anything away.
-/
import Motion.Proofs.Number.Decimals
import Motion.Proofs.Program.Carried
import Motion.Proofs.Program.Finite
import Motion.Proofs.Program.SoundWords
import Motion.Proofs.Text.Numerals
import Motion.Proofs.Text.Words

namespace Motion

/-! ## 1. The last one that gives something -/

section Latest

variable {β γ : Type}

/-- What the last of some words that gives something gives; `b₀` if none of them does. -/
inductive Latest (gives : β → γ → Prop) (b₀ : γ) : List β → γ → Prop
  | given {before after : List β} {w : β} {b : γ} (hw : gives w b)
      (hafter : ∀ w' ∈ after, ∀ b', ¬ gives w' b') : Latest gives b₀ (before ++ w :: after) b
  | none {ws : List β} (hws : ∀ w ∈ ws, ∀ b, ¬ gives w b) : Latest gives b₀ ws b₀

/-- A word more at the end. -/
theorem Latest.concat {gives : β → γ → Prop} {b₀ b : γ} {ws : List β}
    (h : Latest gives b₀ ws b) {w : β} (hw : ∀ b, ¬ gives w b) : Latest gives b₀ (ws ++ [w]) b := by
  have hmore {l : List β} (hl : ∀ w ∈ l, ∀ b, ¬ gives w b) :
      ∀ w' ∈ l ++ [w], ∀ b, ¬ gives w' b := by
    intro w' hw'
    rcases List.mem_append.mp hw' with hw' | hw'
    · exact hl w' hw'
    · rwa [List.mem_singleton.mp hw']
  cases h with
  | given hgiven hafter =>
    rw [List.append_assoc, List.cons_append]
    exact .given hgiven (hmore hafter)
  | none hws => exact .none (hmore hws)

theorem latest_getLastD {gives : β → γ → Prop} {given? : β → Option γ}
    (h : ∀ w b, gives w b ↔ given? w = some b) (b₀ : γ) (ws : List β) :
    Latest gives b₀ ws ((ws.filterMap given?).getLastD b₀) := by
  induction ws using List.reverseRecOn with
  | nil => exact .none (by simp)
  | append_singleton ws w ih =>
    cases hgiven : given? w with
    | none =>
      have hw : ∀ b, ¬ gives w b := fun b hb => by
        rw [h, hgiven] at hb
        cases hb
      rw [List.filterMap_append, List.filterMap_cons_none hgiven, List.filterMap_nil,
        List.append_nil]
      exact ih.concat hw
    | some b =>
      rw [List.filterMap_append, List.filterMap_cons_some hgiven, List.filterMap_nil,
        List.getLastD_concat]
      exact .given ((h w b).mpr hgiven) (by simp)

/-- What is latest was given by a word, or by none. -/
theorem Latest.forall {gives : β → γ → Prop} {b₀ b : γ} {ws : List β} (h : Latest gives b₀ ws b)
    {p : γ → Prop} (hgives : ∀ w b, gives w b → p b) (h₀ : p b₀) : p b := by
  cases h with
  | given hw _ => exact hgives _ _ hw
  | none _ => exact h₀

theorem Latest.eq_of_none {gives : β → γ → Prop} {b₀ b : γ} {ws : List β} (h : Latest gives b₀ ws b)
    (hws : ∀ w ∈ ws, ∀ b, ¬ gives w b) : b = b₀ := by
  cases h with
  | given hw _ => exact absurd hw (hws _ (by simp) _)
  | none _ => rfl

end Latest

/-! ## 2. What a word gives -/

variable {α : Type} [Scalar α]

/-- What a word gives: a letter in either case, and behind it a whole number of 32 bits for a code,
and for a field a decimal number whose value is finite. -/
inductive Gives : Text → Entry α → Prop
  | preparatory {letter : Char} {payload : Text} {n : Int} (hletter : letter.toUpper = 'G')
      (hpayload : Text.IsWhole n payload) (hfits : Text.Fits n) :
      Gives (letter :: payload) (.code (.preparatory n))
  | miscellaneous {letter : Char} {payload : Text} {n : Int} (hletter : letter.toUpper = 'M')
      (hpayload : Text.IsWhole n payload) (hfits : Text.Fits n) :
      Gives (letter :: payload) (.code (.miscellaneous n))
  | value {f : Field} {letter : Char} {payload : Text} {negative : Bool} {digits : Nat}
      {exponent : Int} (hletter : letter.toUpper = f.letter)
      (hpayload : Text.IsDecimal negative digits exponent payload)
      (hfinite : Scalar.isFinite (Scalar.ofDecimal negative digits exponent : α)) :
      Gives (letter :: payload) (.value f (Scalar.ofDecimal negative digits exponent))

variable (α) in
/-- A word whose letter is an address, and which gives nothing. -/
def IsMalformed (w : Text) : Prop :=
  (∃ letter payload, ∃ a : Address, w = letter :: payload ∧ letter.toUpper = a.letter) ∧
    ∀ e : Entry α, ¬ Gives w e

/-- **The texts that are read as coordinates** are the decimal numbers with finite values. -/
theorem Scalar.read_eq_ok_iff {t : Text} {v : α} :
    Scalar.read t = .ok v ↔
      ∃ negative digits exponent, Text.IsDecimal negative digits exponent t ∧
        Scalar.ofDecimal negative digits exponent = v ∧ Scalar.isFinite v := by
  constructor
  · intro h
    unfold Scalar.read at h
    split at h
    · cases h
    · cases h
    · rename_i negative digits exponent hdecimal
      simp only at h
      split at h
      case isTrue hfinite =>
        cases h
        exact ⟨negative, digits, exponent, Text.readDecimal_eq_finite_iff.mp hdecimal, rfl, hfinite⟩
      case isFalse => cases h
    · cases h
    · cases h
  · rintro ⟨negative, digits, exponent, hdecimal, rfl, hfinite⟩
    rw [Scalar.read, Text.readDecimal_eq_finite_iff.mpr hdecimal]
    exact if_pos hfinite

/-- **Reading a word gives what the word gives.** -/
theorem gives_iff {w : Text} {e : Entry α} : Gives w e ↔ readWord w = some (.ok e) := by
  constructor
  · rintro (⟨hletter, hpayload, hfits⟩ | ⟨hletter, hpayload, hfits⟩ | ⟨hletter, hpayload, hfinite⟩)
    · have haddress := Address.ofLetter?_eq_some_iff (a := .preparatory).mpr hletter
      have hread := Text.readInteger_eq_ok_iff.mpr ⟨hpayload, hfits⟩
      simp [readWord, haddress, Address.read, hread, Except.map, Except.mapError]
    · have haddress := Address.ofLetter?_eq_some_iff (a := .miscellaneous).mpr hletter
      have hread := Text.readInteger_eq_ok_iff.mpr ⟨hpayload, hfits⟩
      simp [readWord, haddress, Address.read, hread, Except.map, Except.mapError]
    · have haddress := Address.ofLetter?_eq_field_iff.mpr hletter
      have hread := Scalar.read_eq_ok_iff.mpr ⟨_, _, _, hpayload, rfl, hfinite⟩
      simp [readWord, haddress, Address.read, hread, Except.map, Except.mapError]
  · intro h
    cases w with
    | nil => cases h
    | cons letter payload =>
      obtain ⟨a, haddress, hread⟩ := Option.map_eq_some_iff.mp h
      have hletter := Address.ofLetter?_eq_some_iff.mp haddress
      cases a with
      | preparatory =>
        obtain ⟨n, hn, rfl⟩ := exists_of_map_eq_ok hread
        obtain ⟨hwhole, hfits⟩ := Text.readInteger_eq_ok_iff.mp hn
        exact .preparatory hletter hwhole hfits
      | miscellaneous =>
        obtain ⟨n, hn, rfl⟩ := exists_of_map_eq_ok hread
        obtain ⟨hwhole, hfits⟩ := Text.readInteger_eq_ok_iff.mp hn
        exact .miscellaneous hletter hwhole hfits
      | field f =>
        obtain ⟨v, hv, rfl⟩ := exists_of_map_eq_ok hread
        obtain ⟨negative, digits, exponent, hdecimal, rfl, hfinite⟩ := Scalar.read_eq_ok_iff.mp hv
        exact .value hletter hdecimal hfinite

theorem isFinite_of_gives {w : Text} {f : Field} {v : α} (h : Gives w (.value f v)) :
    Scalar.isFinite v := by
  cases h with
  | value _ _ hfinite => exact hfinite

variable (α) in
/-- Why a word cannot be read, if it should be and cannot. -/
def wordFault? (w : Text) : Option WordFault :=
  match readWord (α := α) w with
  | some (.error fault) => some fault
  | _ => none

theorem wordWarning?_eq (line : UInt32) (text w : Text) :
    wordWarning? α line text w =
      (wordFault? α w).map fun fault => .badWord line text w fault.message := by
  rw [wordWarning?, wordFault?]
  cases (readWord w : Option (Except WordFault (Entry α))) with
  | none => rfl
  | some r => cases r <;> rfl

/-- **The words that are at fault are the malformed ones.** -/
theorem isSome_wordFault?_iff {w : Text} : (wordFault? α w).isSome ↔ IsMalformed α w := by
  simp only [IsMalformed, gives_iff, wordFault?]
  cases w with
  | nil => simp [readWord]
  | cons letter payload =>
    have haddress : (∃ a, Address.ofLetter? letter = some a) ↔
        ∃ l p, ∃ a : Address, letter :: payload = l :: p ∧ l.toUpper = a.letter := by
      simp [Address.ofLetter?_eq_some_iff]
    rw [← haddress]
    cases hletter : Address.ofLetter? letter with
    | none => simp [readWord, hletter]
    | some a => cases hread : (a.read payload : Except WordFault (Entry α)) <;>
        simp [readWord, hletter, hread]

instance (w : Text) : Decidable (IsMalformed α w) := decidable_of_iff _ isSome_wordFault?_iff

/-! ## 3. What a line says -/

/-- The value of a field of a command. -/
def Field.get (f : Field) (c : Command α) : α :=
  match f with
  | x => c.target.x
  | y => c.target.y
  | z => c.target.z
  | i => c.offset.x
  | j => c.offset.y
  | feed => c.feed

/-- What a field of a line is when no word of the line gives it: in modal mode X, Y and Z are those
of the command before, if there is one; everything else is zero. -/
def Field.unset (mode : CoordinateMode) (previous : Option (Command α)) (f : Field) : α :=
  if mode = .modal ∧ f ∈ [x, y, z] then (previous.map f.get).getD Scalar.zero else Scalar.zero

theorem Field.get_blank (f : Field) (mode : CoordinateMode) (before : List (Command α))
    (line : UInt32) (text : Text) :
    f.get (.blank mode (lastTarget .origin before) line text) = f.unset mode before.getLast? := by
  cases mode <;> cases f <;> cases h : before.getLast? <;>
    simp [Field.get, Field.unset, Command.blank, Point.origin, lastTarget, h]

omit [Scalar α] in
theorem Field.get_set (f : Field) (c : Command α) (e : Entry α) :
    f.get (c.set e) = (e.valueFor? f).getD (f.get c) := by
  cases e with
  | code code => rfl
  | value g v => cases f <;> cases g <;> rfl

/-- The code that an entry gives. -/
def Entry.code? : Entry α → Option Code
  | .code c => some c
  | .value _ _ => none

omit [Scalar α] in
theorem code_set (c : Command α) (e : Entry α) : (c.set e).code = e.code?.getD c.code := by
  cases e with
  | code code => rfl
  | value f v => cases f <;> rfl

/-- **The last word wins.**  What the entries of a line put in one place is what the last word gives
that gives something there. -/
theorem latest_of_entries {γ : Type} {given? : Entry α → Option γ} {entry : γ → Entry α}
    (hgiven : ∀ e b, given? e = some b ↔ e = entry b) (text : Text) (b₀ : γ) :
    Latest (fun w b => Gives w (entry b)) b₀ text.words
      (((entries text).filterMap given?).getLastD b₀) := by
  have hwords : (entries text : List (Entry α)).filterMap given? =
      text.words.filterMap fun w => (entryOf? w).bind given? := List.filterMap_filterMap
  rw [hwords]
  refine latest_getLastD (fun w b => ?_) b₀ text.words
  rw [gives_iff, Option.bind_eq_some_iff]
  simp only [hgiven, entryOf?]
  cases (readWord w : Option (Except WordFault (Entry α))) with
  | none => simp
  | some r => cases r <;> simp

theorem latest_code (mode : CoordinateMode) (carried : Point α) (line : UInt32) (text : Text) :
    Latest (fun w c => Gives w (.code c : Entry α)) .modifier text.words
      (readLine mode carried line text).code := by
  have hread : (readLine mode carried line text).code =
      ((entries text : List (Entry α)).filterMap Entry.code?).getLastD .modifier :=
    foldl_latest Command.code Entry.code? code_set _ _
  rw [hread]
  refine latest_of_entries (fun e c => ?_) text Code.modifier
  cases e <;> simp [Entry.code?]

theorem latest_field (f : Field) (mode : CoordinateMode) (before : List (Command α)) (line : UInt32)
    (text : Text) :
    Latest (fun w v => Gives w (.value f v : Entry α)) (f.unset mode before.getLast?) text.words
      (f.get (readLine mode (lastTarget .origin before) line text)) := by
  rw [readLine, foldl_latest f.get (Entry.valueFor? f) f.get_set, f.get_blank]
  refine latest_of_entries (fun e v => ?_) text _
  cases e with
  | code c => simp [Entry.valueFor?]
  | value g w =>
    simp only [Entry.valueFor?, Option.ite_none_right_eq_some, Option.some.injEq,
      Entry.value.injEq]

variable (α) in
/-- What is said of a malformed word. -/
def faultMessage (w : Text) : String := ((wordFault? α w).map WordFault.message).getD ""

/-- **One warning for every malformed word**, and no other. -/
theorem lineWarnings_eq (line : UInt32) (text : Text) :
    lineWarnings α line text =
      (text.words.filter (IsMalformed α)).map fun w =>
        .badWord line text w (faultMessage α w) := by
  rw [lineWarnings, ← List.filterMap_eq_map, List.filterMap_filter]
  refine List.filterMap_congr fun w _ => ?_
  have hmalformed := isSome_wordFault?_iff (α := α) (w := w)
  simp only [wordWarning?_eq, faultMessage]
  cases hfault : wordFault? α w with
  | none =>
    rw [hfault] at hmalformed
    simp [← hmalformed]
  | some fault =>
    rw [hfault] at hmalformed
    simp [← hmalformed, hfault]

/-! ## 4. Any line, after any others -/

/-- The coordinates that a line takes over are finite. -/
theorem isFinite_unset (hzero : Scalar.isFinite (Scalar.zero : α)) (mode : CoordinateMode)
    (before : List (UInt32 × Text)) (f : Field) :
    Scalar.isFinite (f.unset mode (readLines mode .origin before).getLast? : α) := by
  unfold Field.unset
  split
  case isFalse => exact hzero
  case isTrue h =>
    cases hlast : (readLines mode (.origin : Point α) before).getLast? with
    | none => exact hzero
    | some c =>
      have hc : c.IsFinite :=
        isFinite_of_mem_readLines hzero (Point.isFinite_origin hzero) (List.mem_of_getLast? hlast)
      have hf := h.2
      simp only [List.mem_cons, List.not_mem_nil, or_false] at hf
      rcases hf with rfl | rfl | rfl
      · exact hc.target.x
      · exact hc.target.y
      · exact hc.target.z

/-- **A line says what its words say.**

Read any lines from the start, in any mode, and then one more.  Its words are the maximal runs of
characters that are not blank.  The last of them that gives a code gives that of the command, which
only modifies if there is none.  The last one that gives a field gives that field; without one, it
is zero, or in modal mode, for X, Y and Z, what it was in the command before.  All fields are
finite, and a decimal gives the double nearest to the number that it writes.  Every malformed word
has its warning, in the order of the words, with the number of the line, the line and the word as
they stand, and no other word has one. -/
theorem line_says_what_its_words_say (mode : CoordinateMode) (before : List (UInt32 × Text))
    (line : UInt32) (text : Text) :
    let commands : List (Command Float) := readLines mode .origin before
    let c := readLine mode (lastTarget .origin commands) line text
    Text.IsRuns text text.words ∧
      Latest (fun w code => Gives w (.code code : Entry Float)) .modifier text.words c.code ∧
      (∀ f : Field,
        Latest (fun w v => Gives w (.value f v)) (f.unset mode commands.getLast?) text.words
          (f.get c) ∧ (f.get c).isFinite) ∧
      (∀ (negative : Bool) (digits : ℕ) (exponent : ℤ),
        Double.value (Scalar.ofDecimal negative digits exponent) =
          Double.round (Double.decimal negative digits exponent)) ∧
      c.line = line ∧ c.source = text ∧
      lineWarnings Float line text =
        (text.words.filter (IsMalformed Float)).map fun w =>
          .badWord line text w (faultMessage Float w) := by
  intro commands c
  refine ⟨Text.isRuns_iff.mpr rfl, latest_code mode _ line text, fun f => ?_,
    fun negative digits exponent => (Double.value_ofDecimal negative digits exponent).2,
    line_readLine .., source_readLine .., lineWarnings_eq line text⟩
  have hlatest := latest_field f mode commands line text
  exact ⟨hlatest, hlatest.forall (fun w v => isFinite_of_gives)
    (isFinite_unset Double.isFinite_zero mode before f)⟩

/-- A code is replaced by one of the other letter, and malformed words replace nothing. -/
example :
    let c : Command Float :=
      readLine .modal ⟨3, 4, 5⟩ 1 "G1 x1 m02 G X9e999 y-.5E1 G2147483648".toList
    c.code = .miscellaneous 2 ∧ c.target = ⟨1, -5, 5⟩ := ⟨rfl, rfl⟩

end Motion
