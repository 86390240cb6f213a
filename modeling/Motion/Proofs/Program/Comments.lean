/-
# A comment costs no code

A comment ends the code of a line at the first character of its kind, wherever that stands.  So a
comment character that may occur in a readable word would cut words off without any warning.
`Settings.fault?` is there to keep such characters out, and this module proves that it does.

* The characters of a readable word are ASCII letters and digits, signs and points
  (`WellFormedWord.isWordChar`).  This is a property of the two number syntaxes.
* No such character, and no blank, is let through as a comment character
  (`not_isWordChar_of_isCommentChar`).

Then a comment behind a line of readable words leaves the line as it is, less the blanks around it,
and the line is read as it would be without the comment (`comment_costs_no_code`).
-/
import Mathlib
import Motion.Proofs.Program.Carried
import Motion.Proofs.Program.Stripping
import Motion.Settings

namespace Motion

/-! ## 1. The characters of numbers -/

/-- A character that can stand in a readable word: an ASCII letter or digit, a sign or a point. -/
def isWordChar (c : Char) : Bool := c.isAlphanum || c == '+' || c == '-' || c == '.'

namespace Text

theorem isWordChar_of_isDigit {c : Char} (h : isDigit c) : isWordChar c := by
  have hrange : '0' ≤ c ∧ c ≤ '9' := by
    by_contra hout
    simp [isDigit, digit?, hout] at h
  have hdigit : c.isDigit := by
    simpa [Char.isDigit, Char.le_def] using hrange
  simp [isWordChar, Char.isAlphanum, hdigit]

/-- A whole number begins with a digit and goes on with a whole number. -/
theorem exists_of_integerFrom_cons {negative : Bool} {value n : Int} {a : Char} {t : Text}
    (h : integerFrom negative value (a :: t) = .ok n) :
    isDigit a ∧ ∃ next, integerFrom negative next t = .ok n := by
  rw [integerFrom] at h
  cases hdigit : digit? a with
  | none =>
    rw [hdigit] at h
    cases h
  | some d =>
    simp only [hdigit] at h
    generalize (if negative then 10 * value - (d : Int) else 10 * value + d) = next at h
    refine ⟨by simp [isDigit, hdigit], next, ?_⟩
    split at h
    · cases h
    · split at h
      · cases h
      · exact h

theorem isDigit_of_integerFrom {negative : Bool} {value n : Int} {t : Text}
    (h : integerFrom negative value t = .ok n) : ∀ c ∈ t, isDigit c := by
  induction t generalizing value with
  | nil => simp
  | cons a t ih =>
    obtain ⟨ha, next, hrest⟩ := exists_of_integerFrom_cons h
    intro c hc
    rcases List.mem_cons.mp hc with rfl | hc
    · exact ha
    · exact ih hrest c hc

theorem isWordChar_of_signedInteger {negative : Bool} {n : Int} {t : Text}
    (h : signedInteger negative t = .ok n) : ∀ c ∈ t, isWordChar c := by
  unfold signedInteger at h
  split at h
  · cases h
  · exact fun c hc => isWordChar_of_isDigit (isDigit_of_integerFrom h c hc)

/-- **The characters of a whole number** are digits, with a sign before them or not. -/
theorem isWordChar_of_readInteger {t : Text} {n : Int} (h : readInteger t = .ok n) :
    ∀ c ∈ t, isWordChar c := by
  unfold readInteger at h
  split at h
  · cases h
  · exact List.forall_mem_cons.mpr ⟨rfl, isWordChar_of_signedInteger h⟩
  · exact List.forall_mem_cons.mpr ⟨rfl, isWordChar_of_signedInteger h⟩
  · exact isWordChar_of_signedInteger h

theorem isDigit_of_readNatural? {t : Text} (h : (readNatural? t).isSome) : ∀ c ∈ t, isDigit c := by
  unfold readNatural? at h
  split at h
  · cases h
  · rename_i hall
    simp only [Bool.or_eq_true, Bool.not_eq_true', not_or] at hall
    exact List.all_eq_true.mp (by simpa using hall.2)

theorem isWordChar_of_readNatural? {t : Text} (h : (readNatural? t).isSome) :
    ∀ c ∈ t, isWordChar c := fun c hc => isWordChar_of_isDigit (isDigit_of_readNatural? h c hc)

/-- The characters of a power of ten: the letter of the exponent, a sign or none, and digits. -/
theorem isWordChar_of_readExponent? {t : Text} (h : (readExponent? t).isSome) :
    ∀ c ∈ t, isWordChar c := by
  unfold readExponent? at h
  split at h
  · simp
  · rename_i e t
    split at h
    case isTrue he =>
      have hletter : isWordChar e := by
        simp only [Bool.or_eq_true, beq_iff_eq] at he
        rcases he with rfl | rfl <;> rfl
      refine List.forall_mem_cons.mpr ⟨hletter, ?_⟩
      split at h
      · exact List.forall_mem_cons.mpr ⟨rfl, isWordChar_of_readNatural? (by simpa using h)⟩
      · exact List.forall_mem_cons.mpr ⟨rfl, isWordChar_of_readNatural? (by simpa using h)⟩
      · exact isWordChar_of_readNatural? (by simpa using h)
    case isFalse => cases h

theorem isWordChar_of_digits {t : Text} (h : ∀ c ∈ t.dropWhile isDigit, isWordChar c) :
    ∀ c ∈ t, isWordChar c := by
  intro c hc
  rw [← List.takeWhile_append_dropWhile (p := isDigit) (l := t), List.mem_append] at hc
  rcases hc with hc | hc
  · exact isWordChar_of_isDigit (List.all_eq_true.mp List.all_takeWhile c hc)
  · exact h c hc

/-- The characters of a point and digits, or none, and of what follows. -/
theorem isWordChar_of_fraction {t : Text} (h : ∀ c ∈ (fraction t).2, isWordChar c) :
    ∀ c ∈ t, isWordChar c := by
  unfold fraction at h
  split at h
  · exact List.forall_mem_cons.mpr ⟨rfl, isWordChar_of_digits h⟩
  · exact h

theorem isWordChar_of_readUnsigned? {t : Text} {negative sign : Bool} {digits : Nat} {e : Int}
    (h : readUnsigned? negative t = some (.finite sign digits e)) : ∀ c ∈ t, isWordChar c := by
  unfold readUnsigned? at h
  simp only at h
  split at h
  · cases h
  · split at h
    · cases h
    · split at h
      · cases h
      · obtain ⟨e, he, -⟩ := Option.map_eq_some_iff.mp h
        have hexponent := isWordChar_of_readExponent? (Option.isSome_of_eq_some he)
        exact isWordChar_of_digits (isWordChar_of_fraction hexponent)

/-- **The characters of a decimal number** that is not named are digits, signs, a point and the
letter of the exponent. -/
theorem isWordChar_of_readDecimal {t : Text} {negative : Bool} {digits : Nat} {e : Int}
    (h : readDecimal t = .ok (.finite negative digits e)) : ∀ c ∈ t, isWordChar c := by
  unfold readDecimal at h
  simp only at h
  split at h
  · rename_i value hvalue
    cases h
    split at hvalue
    · exact List.forall_mem_cons.mpr ⟨rfl, isWordChar_of_readUnsigned? hvalue⟩
    · exact List.forall_mem_cons.mpr ⟨rfl, isWordChar_of_readUnsigned? hvalue⟩
    · exact isWordChar_of_readUnsigned? hvalue
  · cases h

end Text

/-! ## 2. The characters of words -/

variable {α : Type} [Scalar α]

/-- **The characters of a coordinate.**  The names of infinities are read as decimal numbers, but
they are no coordinates. -/
theorem isWordChar_of_read {t : Text} {v : α} (h : Scalar.read t = .ok v) :
    ∀ c ∈ t, isWordChar c := by
  unfold Scalar.read at h
  split at h
  · cases h
  · cases h
  · rename_i hread
    exact Text.isWordChar_of_readDecimal hread
  · cases h
  · cases h

/-- An address, in either case, and a number that it takes. -/
inductive WellFormedWord (α : Type) [Scalar α] : Text → Prop where
  | code {letter : Char} {payload : Text} {n : Int} (hletter : letter.toUpper ∈ ['G', 'M'])
      (hpayload : payload.readInteger = .ok n) : WellFormedWord α (letter :: payload)
  | value {letter : Char} {payload : Text} {f : Field} {v : α} (hletter : letter.toUpper = f.letter)
      (hpayload : Scalar.read payload = .ok v) : WellFormedWord α (letter :: payload)

/-- A letter that cannot be told from a word character but for its case is one. -/
theorem isWordChar_of_toUpper {c : Char} (h : isWordChar c.toUpper) : isWordChar c := by
  by_cases hlower : c.isLower
  · simp [isWordChar, Char.isAlphanum, Char.isAlpha, hlower]
  · rwa [Char.toUpper_eq_of_not_isLower hlower] at h

/-- **The characters of a readable word.** -/
theorem WellFormedWord.isWordChar {w : Text} (h : WellFormedWord α w) :
    ∀ c ∈ w, isWordChar c := by
  cases h with
  | code hletter hpayload =>
    refine List.forall_mem_cons.mpr
      ⟨isWordChar_of_toUpper ?_, Text.isWordChar_of_readInteger hpayload⟩
    simp only [List.mem_cons, List.not_mem_nil, or_false] at hletter
    rcases hletter with hletter | hletter <;> rw [hletter] <;> rfl
  | @value letter payload f v hletter hpayload =>
    refine List.forall_mem_cons.mpr ⟨isWordChar_of_toUpper ?_, isWordChar_of_read hpayload⟩
    rw [hletter]
    cases f <;> rfl

/-- A readable word gives an entry, and no warning. -/
theorem WellFormedWord.exists_entry {w : Text} (h : WellFormedWord α w) :
    ∃ e : Entry α, readWord w = some (.ok e) := by
  cases h with
  | @code letter payload n hletter hpayload =>
    simp only [List.mem_cons, List.not_mem_nil, or_false] at hletter
    rcases hletter with hletter | hletter
    · exact ⟨.code (.preparatory n), by
        simp [readWord, Address.ofLetter?, hletter, Address.read, hpayload, Except.map,
          Except.mapError]⟩
    · exact ⟨.code (.miscellaneous n), by
        simp [readWord, Address.ofLetter?, hletter, Address.read, hpayload, Except.map,
          Except.mapError]⟩
  | @value letter payload f v hletter hpayload =>
    have haddress := Address.ofLetter?_eq_field_iff.mpr hletter
    exact ⟨.value f v, by
      simp [readWord, haddress, Address.read, hpayload, Except.map, Except.mapError]⟩

/-! ## 3. Lines with a comment -/

/-- The ASCII letters and digits are letters and numbers of the table. -/
theorem isAlphanumeric_of_isAlphanum {c : Char} (h : c.isAlphanum) : Text.isAlphanumeric c := by
  have hrange : 65 ≤ c.toNat ∧ c.toNat ≤ 90 ∨ 97 ≤ c.toNat ∧ c.toNat ≤ 122 ∨
      48 ≤ c.toNat ∧ c.toNat ≤ 57 := by
    simpa [Char.isAlphanum, Char.isAlpha, Char.isUpper, Char.isLower, Char.isDigit,
      UInt32.le_iff_toNat_le, or_assoc] using h
  have hrun {low high : Nat} (hmem : (low, high) ∈ Text.alphanumerics)
      (hc : low ≤ c.toNat ∧ c.toNat ≤ high) : Text.isAlphanumeric c :=
    List.any_eq_true.mpr ⟨(low, high), hmem, by simpa using hc⟩
  rcases hrange with hupper | hlower | hdigit
  · exact hrun (.tail _ (.head _)) hupper
  · exact hrun (.tail _ (.tail _ (.head _))) hlower
  · exact hrun (.head _) hdigit

/-- **A character that is let through to start comments stands in no word and is no blank.** -/
theorem not_isWordChar_of_isCommentChar {c : Char} (h : Settings.isCommentChar c) :
    isWordChar c = false ∧ Text.isBlank c = false := by
  simp only [Settings.isCommentChar, Bool.not_eq_true', Bool.or_eq_false_iff] at h
  obtain ⟨⟨⟨⟨halpha, hblank⟩, hpoint⟩, hminus⟩, hplus⟩ := h
  have halphanum : c.isAlphanum = false := by
    cases hc : c.isAlphanum with
    | false => rfl
    | true => rw [isAlphanumeric_of_isAlphanum hc] at halpha; cases halpha
  simp [isWordChar, halphanum, hpoint, hminus, hplus, hblank]

theorem codePart?_append_comment {comment : Char} {line : Text} (hline : comment ∉ line)
    (hne : line.trim ≠ []) (t : Text) :
    codePart? comment (line ++ comment :: t) = some line.trim ∧
      codePart? comment line = some line.trim := by
  have hwithout : codePart? comment line = some line.trim := by
    rw [codePart?_eq_some_iff, (cuts_of_notMem hline).takeWhile_eq]
    exact ⟨rfl, hne⟩
  exact ⟨(codePart?_comment comment line t).trans hwithout, hwithout⟩

/-- A line is read by its words, so blanks around it make no difference. -/
theorem readLine_trim (mode : CoordinateMode) (carried : Point α) (n : UInt32) (line : Text) :
    readLine mode carried n line.trim = (readLine mode carried n line).placed n line.trim := by
  have hentries : (entries line.trim : List (Entry α)) = entries line := by
    rw [entries, entries, Text.words_trim]
  rw [readLine_eq_placed, hentries, readLine_eq_placed mode carried n line]
  rfl

/-- Readable words give no warnings. -/
theorem lineWarnings_eq_nil {line : Text} (h : ∀ w ∈ line.words, WellFormedWord α w) (n : UInt32) :
    lineWarnings α n line = [] := by
  refine List.filterMap_eq_nil_iff.mpr fun w hw => ?_
  obtain ⟨e, he⟩ := (h w hw).exists_entry
  rw [wordWarning?, he]

/-- **A comment costs no code.**

Take settings without a fault and a line of readable words, one at least.  Behind any comment that
starts with the comment character of the settings, the code of the line is the line itself without
the blanks around it.  Reading that gives no warning and the fields that the line has by itself, and
a program goes on behind the line as if there were no comment. -/
theorem comment_costs_no_code {s : Settings} (hs : s.fault? = none) {line : Text}
    (hne : line.words ≠ []) (hwords : ∀ w ∈ line.words, WellFormedWord α w) (t : Text) :
    let comment := s.parser.comment
    codePart? comment (line ++ comment :: t) = some line.trim ∧
      ∀ n : UInt32,
        lineWarnings α n line.trim = [] ∧
          (∀ carried : Point α, readLine s.parser.mode carried n line.trim =
            (readLine s.parser.mode carried n line).placed n line.trim) ∧
          ∀ before : Loader α,
            before.feed s.parser n (line ++ comment :: t) = before.feed s.parser n line := by
  intro comment
  have hcomment : Settings.isCommentChar comment := by
    unfold Settings.fault? at hs
    split at hs
    · cases hs
    · split at hs
      · cases hs
      · rename_i hchar
        simpa using hchar
  obtain ⟨hword, hblank⟩ := not_isWordChar_of_isCommentChar hcomment
  have hline : comment ∉ line := by
    intro hmem
    obtain ⟨w, hw, hcw⟩ := Text.exists_word_of_mem hmem hblank
    rw [(hwords w hw).isWordChar comment hcw] at hword
    cases hword
  obtain ⟨hwith, hwithout⟩ := codePart?_append_comment hline (Text.trim_ne_nil hne) t
  refine ⟨hwith, fun n => ⟨?_, fun carried => readLine_trim _ carried n line, fun before => ?_⟩⟩
  · exact lineWarnings_eq_nil (by rwa [Text.words_trim]) n
  · rw [Loader.feed_eq, Loader.feed_eq, hwith, hwithout]

/-- A line of three words in both cases of their letters, and a comment that looks like code. -/
theorem comment_costs_no_code_three_words :
    let s : Settings := { parser := ⟨.modal, '#'⟩ }
    let line : Text := " g01 X-1.5e1\tf+.5 ".toList
    s.fault? = none ∧ line.words = ["g01".toList, "X-1.5e1".toList, "f+.5".toList] ∧
      WellFormedWord Float "X-1.5e1".toList ∧
      codePart? '#' (line ++ '#' :: "X7 # Y8".toList) = some "g01 X-1.5e1\tf+.5".toList ∧
      lineWarnings Float 1 "g01 X-1.5e1\tf+.5".toList = [] ∧
      Loader.feed s.parser (.start : Loader Float) 1 (line ++ '#' :: "X7 # Y8".toList) =
        Loader.feed s.parser .start 1 line := by
  intro s line
  have hs : s.fault? = none := by decide +kernel
  have hsplit : line.words = ["g01".toList, "X-1.5e1".toList, "f+.5".toList] := by decide
  have hg : WellFormedWord Float "g01".toList := .code (n := 1) (by decide) rfl
  have hx : WellFormedWord Float "X-1.5e1".toList := .value (f := .x) (v := -15) (by decide) rfl
  have hf : WellFormedWord Float "f+.5".toList := .value (f := .feed) (v := 0.5) (by decide) rfl
  have hwords : ∀ w ∈ line.words, WellFormedWord Float w := by
    rw [hsplit]
    simp only [List.mem_cons, List.not_mem_nil, or_false]
    rintro w (rfl | rfl | rfl)
    · exact hg
    · exact hx
    · exact hf
  obtain ⟨hcode, hread⟩ :=
    comment_costs_no_code hs (by rw [hsplit]; simp) hwords "X7 # Y8".toList
  exact ⟨hs, hsplit, hx, hcode, (hread 1).1, (hread 1).2.2 .start⟩

end Motion
