/-
# Letters in either case

No reader of numbers tells a capital letter from a small one.  Only the ASCII letters have two cases
here, and where a reader looks for anything else, a digit, a sign or a point, it finds it before a
change of case exactly where it finds it afterwards (`toLower_eq_iff`).  The letter of an exponent
and the names of values that are not finite are looked for in both cases.

So the outcome of reading is the same, and if it is a fault, it is the same fault
(`readInteger_map_toLower`, `readDecimal_map_toLower`).
-/
import Mathlib
import Motion.Proofs.Text.Numerals
import Motion.Number.Scalar

namespace Motion.Text

/-! ## 1. Characters -/

/-- A character that is no letter has no other case. -/
theorem toLower_eq_iff {c d : Char} (hd : d.isAlpha = false) : c.toLower = d ↔ c = d := by
  by_cases hc : c.isUpper
  · have hletter : c.isAlpha = true := by simp [Char.isAlpha, hc]
    have hlower : c.toLower.isAlpha = true := by rw [Char.isAlpha_toLower_eq_isAlpha, hletter]
    constructor
    · rintro rfl
      rw [hlower] at hd
      cases hd
    · rintro rfl
      rw [hletter] at hd
      cases hd
  · rw [Char.toLower_eq_of_not_isUpper hc]

/-- What holds of no letter holds of both cases of a character, or of neither. -/
theorem congr_of_toLower_eq {p : Char → Bool} (hp : ∀ c, p c → c.isAlpha = false) {c d : Char}
    (h : c.toLower = d.toLower) : p c = p d := by
  have heq {a b : Char} (hab : a.toLower = b.toLower) (ha : p a) : b = a := by
    rw [← toLower_eq_iff (hp a ha), ← hab, toLower_eq_iff (hp a ha)]
  cases hc : p c with
  | true => rw [heq h hc, hc]
  | false =>
    cases hd : p d with
    | false => rfl
    | true =>
      rw [heq h.symm hd, hd] at hc
      cases hc

theorem isAlpha_of_isBlank {c : Char} (h : isBlank c) : c.isAlpha = false := by
  simp only [isBlank, Bool.or_eq_true, Bool.and_eq_true, decide_eq_true_eq, beq_iff_eq] at h
  simp only [Char.isAlpha, Char.isUpper, Char.isLower, UInt32.le_iff_toNat_le]
  simp
  omega

theorem isAlpha_of_isDigit {c : Char} (h : isDigit c) : c.isAlpha = false := by
  simp only [isDigit, digit?, Option.isSome_ite, Char.le_def, UInt32.le_iff_toNat_le] at h
  simp only [Char.isAlpha, Char.isUpper, Char.isLower, UInt32.le_iff_toNat_le]
  simp at h ⊢
  omega

theorem digit?_toLower (c : Char) : digit? c.toLower = digit? c := by
  by_cases h : isDigit c
  · rw [toLower_of_isDigit h]
  · have hlower : ¬ isDigit c.toLower := by
      intro hdigit
      rw [← (toLower_eq_iff (isAlpha_of_isDigit hdigit)).mp rfl] at hdigit
      exact h hdigit
    rw [isDigit, Option.not_isSome_iff_eq_none] at h hlower
    rw [h, hlower]

theorem isDigit_comp_toLower : isDigit ∘ Char.toLower = isDigit := by
  funext c
  simp only [Function.comp_apply, isDigit, digit?_toLower]

/-- The letter of an exponent, in either case. -/
theorem toLower_eq_e_iff {c : Char} : c.toLower = 'e' ↔ c = 'e' ∨ c = 'E' := by
  constructor
  · intro h
    have hupper : c.toUpper = 'E' := by
      rw [← Char.toUpper_toLower_eq_toUpper, h]
      rfl
    by_cases hc : c.isUpper
    · right
      rw [← hupper, Char.toUpper_eq_of_not_isLower (Char.not_isLower_of_isUpper hc)]
    · left
      rw [← h, Char.toLower_eq_of_not_isUpper hc]
  · rintro (rfl | rfl) <;> rfl

/-! ## 2. Whole numbers -/

theorem unsign_map_toLower (t : Text) :
    unsign (t.map Char.toLower) = ((unsign t).1, (unsign t).2.map Char.toLower) := by
  rcases sign_cases t with ⟨u, rfl⟩ | ⟨u, rfl⟩ | hhead
  · rfl
  · rfl
  · have hlower : ∀ c ∈ (t.map Char.toLower).head?, c ≠ '+' ∧ c ≠ '-' := by
      intro c hc
      rw [List.head?_map, Option.mem_map] at hc
      obtain ⟨a, ha, rfl⟩ := hc
      exact ⟨mt (toLower_eq_iff rfl).mp (hhead a ha).1, mt (toLower_eq_iff rfl).mp (hhead a ha).2⟩
    rw [unsign_of_head? hhead, unsign_of_head? hlower]

theorem integerFrom_map_toLower (negative : Bool) (value : Int) (t : Text) :
    integerFrom negative value (t.map Char.toLower) = integerFrom negative value t := by
  induction t generalizing value with
  | nil => rfl
  | cons c t ih =>
    rw [List.map_cons, integerFrom, integerFrom, digit?_toLower]
    cases digit? c with
    | none => rfl
    | some d => simp only [ih]

/-- **A whole number is read in either case**: all of its characters have only one. -/
theorem readInteger_map_toLower (t : Text) :
    readInteger (t.map Char.toLower) = readInteger t := by
  rw [readInteger_eq, readInteger_eq, unsign_map_toLower, signedInteger, signedInteger,
    integerFrom_map_toLower]
  simp only [List.isEmpty_map]

/-! ## 3. Decimal numbers -/

theorem naturalOf_map_toLower (t : Text) : naturalOf (t.map Char.toLower) = naturalOf t := by
  simp only [naturalOf, List.foldl_map, digit?_toLower]

theorem readNatural?_map_toLower (t : Text) :
    readNatural? (t.map Char.toLower) = readNatural? t := by
  rw [readNatural?, readNatural?, List.isEmpty_map, List.all_map, isDigit_comp_toLower,
    naturalOf_map_toLower]

theorem readExponent?_map_toLower (t : Text) :
    readExponent? (t.map Char.toLower) = readExponent? t := by
  cases t with
  | nil => rfl
  | cons letter t =>
    have hletter : (letter.toLower == 'e' || letter.toLower == 'E') =
        (letter == 'e' || letter == 'E') := by
      have hboth (c : Char) : (c == 'e' || c == 'E') = (c.toLower == 'e') := by
        rw [Bool.eq_iff_iff]
        simp [toLower_eq_e_iff]
      rw [hboth, hboth, Char.toLower_toLower_eq_toLower]
    rw [List.map_cons, readExponent?_cons, readExponent?_cons, unsign_map_toLower,
      readNatural?_map_toLower, hletter]

theorem fraction_map_toLower (t : Text) :
    fraction (t.map Char.toLower) =
      ((fraction t).1.map Char.toLower, (fraction t).2.map Char.toLower) := by
  cases t with
  | nil => rfl
  | cons c t =>
    by_cases hpoint : c = '.'
    · subst hpoint
      have hlower : ('.' : Char).toLower = '.' := rfl
      simp only [List.map_cons, hlower, fraction, List.takeWhile_map, List.dropWhile_map,
        isDigit_comp_toLower]
    · have hlower : c.toLower ≠ '.' := mt (toLower_eq_iff rfl).mp hpoint
      simp [fraction, hpoint, hlower]

theorem readUnsigned?_map_toLower (negative : Bool) (t : Text) :
    readUnsigned? negative (t.map Char.toLower) = readUnsigned? negative t := by
  have hname : (t.map Char.toLower).map Char.toLower = t.map Char.toLower := by simp
  simp only [readUnsigned?, hname, List.takeWhile_map, List.dropWhile_map, isDigit_comp_toLower,
    fraction_map_toLower, List.isEmpty_map, List.length_map, readExponent?_map_toLower,
    ← List.map_append, naturalOf_map_toLower]

/-- **A decimal number is read in either case**, and so are the names. -/
theorem readDecimal_map_toLower (t : Text) :
    readDecimal (t.map Char.toLower) = readDecimal t := by
  rw [readDecimal_eq, readDecimal_eq, unsign_map_toLower, readUnsigned?_map_toLower,
    List.isEmpty_map]

end Motion.Text

namespace Motion

theorem Scalar.read_map_toLower {α : Type} [Scalar α] (t : Text) :
    (Scalar.read (t.map Char.toLower) : Except RealFault α) = Scalar.read t := by
  rw [Scalar.read, Text.readDecimal_map_toLower, ← Scalar.read]

end Motion
