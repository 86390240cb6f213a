/-
# Reading digits and letters that were written

A number is written by its digits, of which the last one is the remainder and the others write the
quotient.  All readers of digits are folds, so each of them takes the digits of a number back to it
by the same induction, if only it knows the value of every single digit (`foldlM_toDigits`).  And
all of them stop at the first character that is no digit (`span_append`).

A control character with a letter has that of the list which the readers look it up in
(`mem_controls_of_controlLetter?`).
-/
import Mathlib.Data.Nat.Digits.Defs
import Motion.Number.Decimal
import Motion.Text.Escape

namespace Motion.Text

/-! ## 1. Runs of characters -/

/-- A predicate that tells two characters apart. -/
theorem ne_of_holds {p : Char → Bool} {c d : Char} (h : p c = true) (hd : p d = false) :
    c ≠ d := by
  rintro rfl
  exact Bool.false_ne_true (hd.symm.trans h)

/-- A run of characters and what stands behind it. -/
theorem span_append {p : Char → Bool} {run rest : Text} (hrun : ∀ c ∈ run, p c = true)
    (hrest : ∀ c ∈ rest.head?, p c = false) :
    (run ++ rest).takeWhile p = run ∧ (run ++ rest).dropWhile p = rest := by
  have hstop : rest.takeWhile p = [] ∧ rest.dropWhile p = rest := by
    cases rest with
    | nil => exact ⟨rfl, rfl⟩
    | cons c rest => simp [hrest c rfl]
  rw [List.takeWhile_append_of_pos hrun, List.dropWhile_append_of_pos hrun, hstop.1, hstop.2]
  exact ⟨List.append_nil run, rfl⟩

/-! ## 2. Folding over digits -/

section Folds

variable {base : Nat}

/-- **A fold over the digits of a number** gives the number, if it knows the value of each; however
the digits are shown. -/
theorem foldlM_toDigits (value? : Char → Option Nat) (shown : Char → Char) (hbase : 1 < base)
    (hvalue : ∀ d < base, value? (shown d.digitChar) = some d) (n : Nat) :
    ((Nat.toDigits base n).map shown).foldlM (fun m c => (value? c).map (base * m + ·)) 0 =
      some n := by
  induction n using Nat.strongRecOn with
  | ind n ih =>
    rw [Nat.toDigits_eq_if hbase]
    split
    case isTrue hlt => simp [hvalue n hlt]
    case isFalse hle =>
      have hquotient : n / base < n := Nat.div_lt_self (by omega) hbase
      have hremainder : n % base < base := Nat.mod_lt n (by omega)
      rw [List.map_append, List.foldlM_append, ih _ hquotient]
      simp [hvalue _ hremainder, Nat.div_add_mod]

/-- The same for a fold that cannot fail. -/
theorem foldl_toDigits {value : Char → Nat} (hbase : 1 < base)
    (hvalue : ∀ d < base, value d.digitChar = d) (n : Nat) :
    (Nat.toDigits base n).foldl (fun m c => base * m + value c) 0 = n := by
  have hfold := foldlM_toDigits (fun c => some (value c)) id hbase
    (fun d hd => congrArg some (hvalue d hd)) n
  rw [List.map_id] at hfold
  exact Option.some.inj (List.foldlM_pure.symm.trans hfold)

end Folds

/-! ## 3. Base ten -/

theorem digit?_digitChar : ∀ d < 10, digit? d.digitChar = some d := by decide

theorem isDigit_of_mem_toDigits {n : Nat} {c : Char} (h : c ∈ Nat.toDigits 10 n) :
    isDigit c = true := by
  have hdigit : c.isDigit = true := Nat.isDigit_of_mem_toDigits (by decide) (by decide) h
  simp only [Char.isDigit, Bool.and_eq_true, decide_eq_true_eq] at hdigit
  rw [isDigit, digit?, if_pos ⟨hdigit.1, hdigit.2⟩]
  rfl

theorem exists_toDigits_eq_cons (n : Nat) :
    ∃ c digits, Nat.toDigits 10 n = c :: digits ∧ isDigit c = true := by
  obtain ⟨c, digits, hcons⟩ := List.exists_cons_of_ne_nil (Nat.toDigits_ne_nil (n := n) (b := 10))
  exact ⟨c, digits, hcons, isDigit_of_mem_toDigits (hcons ▸ List.mem_cons_self)⟩

/-- A number is written without a needless zero before it. -/
theorem toDigits_eq_zero_of_head? {n : Nat} (h : (Nat.toDigits 10 n).head? = some '0') :
    Nat.toDigits 10 n = ['0'] := by
  suffices hzero : n = 0 by rw [hzero, Nat.toDigits_zero]
  have hdigit : ∀ d < 10, d.digitChar = '0' → d = 0 := by decide
  induction n using Nat.strongRecOn with
  | ind n ih =>
    rw [Nat.toDigits_eq_if (by decide)] at h
    split at h
    case isTrue hlt => exact hdigit n hlt (Option.some.inj h)
    case isFalse hle =>
      obtain ⟨c, rest, hdigits, -⟩ := exists_toDigits_eq_cons (n / 10)
      rw [hdigits] at h
      have hquotient := ih (n / 10) (by omega) (hdigits ▸ h)
      omega

/-- **A whole number is read as it was written.** -/
theorem readNatural?_toDigits (n : Nat) : readNatural? (Nat.toDigits 10 n) = some n := by
  have hempty : (Nat.toDigits 10 n).isEmpty = false := by
    rw [List.isEmpty_eq_false_iff]
    exact Nat.toDigits_ne_nil
  have hdigits : (Nat.toDigits 10 n).all isDigit = true :=
    List.all_eq_true.mpr fun c hc => isDigit_of_mem_toDigits hc
  have hvalue : naturalOf (Nat.toDigits 10 n) = n :=
    foldl_toDigits (by decide) (fun d hd => by rw [digit?_digitChar d hd]; rfl) n
  rw [readNatural?, hempty, hdigits, hvalue]
  rfl

/-! ## 4. Base sixteen -/

theorem hexValue?_digitChar : ∀ d < 16, hexValue? d.digitChar = some d := by decide

theorem hexValue?_toUpper_digitChar : ∀ d < 16, hexValue? d.digitChar.toUpper = some d := by decide

/-- Digits in base sixteen with zeros before them, in either case. -/
theorem readHex?_map_hexPadded (shown : Char → Char)
    (hshown : ∀ d < 16, hexValue? (shown d.digitChar) = some d) (width n : Nat) :
    readHex? ((hexPadded width n).map shown) = some n := by
  have hzeros (count : Nat) (t : Text) :
      readHex? (List.replicate count (shown '0') ++ t) = readHex? t := by
    induction count with
    | zero => rfl
    | succ count ih =>
      have hzero : hexValue? (shown '0') = some 0 := hshown 0 (by decide)
      rw [List.replicate_succ, List.cons_append, readHex?, List.foldlM_cons, hzero]
      exact ih
  rw [hexPadded, List.map_append, List.map_replicate, hzeros]
  exact foldlM_toDigits hexValue? shown (by decide) hshown n

/-- Four digits are enough for 16 bits. -/
theorem length_hexPadded_four {n : Nat} (h : n < 0x10000) : (hexPadded 4 n).length = 4 := by
  have hle : (Nat.toDigits 16 n).length ≤ 4 :=
    (Nat.length_toDigits_le_iff (by decide) (by decide)).mpr h
  simp only [hexPadded, hexDigits, List.length_append, List.length_replicate]
  omega

/-! ## 5. Letters for control characters -/

theorem mem_controls_of_controlLetter? {c letter : Char} (h : controlLetter? c = some letter) :
    (letter, c) ∈ controls := by
  obtain ⟨entry, hfind, rfl⟩ := Option.map_eq_some_iff.mp h
  have hc : (entry.2 == c) = true :=
    List.find?_some (p := fun entry : Char × Char => entry.2 == c) hfind
  obtain rfl : entry.2 = c := eq_of_beq hc
  exact List.mem_of_find?_eq_some hfind

end Motion.Text
