/-
# Decimal texts of doubles

A double is written with a fixed number of digits behind the point, by exact arithmetic on whole
numbers.  This module says what comes of it: the text of a finite double is read back as a decimal
number, and that is the nearest one with so many places (`readDecimal_fixed`).

Three things come together.

* The parts that are cut out of the bits of a double make up its number (`exists_parts_of_value`).
* Dividing whole numbers with `roundDiv` gives the nearest whole number (`roundDiv_eq_nearestEven`).
* Digits that are filled up with zeros and parted by a point still write the same whole number
  (`isDecimal_fixed`).
-/
import Motion.Number.Rendering
import Motion.Proofs.Number.DoubleValue
import Motion.Proofs.Text.Numerals

namespace Motion.Double

open Float.Model (Format UnpackedFloat)
open Float.Model.UnpackedFloat

/-! ## 1. The parts of a double -/

/-- The sign of a double whose sign bit says whether it is negative. -/
def signOf (negative : Bool) : Sign := if negative then .negative else .positive

theorem toNat_unpackMantissa (b : BitVec Format.binary64.numBits) :
    (unpackMantissa b).toNat = b.toNat % 2 ^ 52 := by
  rw [unpackMantissa, BitVec.toNat_cast, BitVec.extractLsb_toNat]
  rfl

theorem toNat_unpackExponent (b : BitVec Format.binary64.numBits) :
    (unpackExponent b).toNat = b.toNat / 2 ^ 52 % 2 ^ 11 := by
  rw [unpackExponent, BitVec.toNat_cast, BitVec.extractLsb_toNat, Nat.shiftRight_eq_div_pow]
  rfl

theorem ofBitVec_unpackSign (b : BitVec Format.binary64.numBits) :
    Sign.ofBitVec (unpackSign b) = signOf (decide (2 ^ 63 ≤ b.toNat)) := by
  have hlt : b.toNat < 2 ^ 64 := b.isLt
  have hsign : (unpackSign b).toNat = b.toNat / 2 ^ 63 := by
    rw [unpackSign, BitVec.toNat_cast, BitVec.extractLsb_toNat, Nat.shiftRight_eq_div_pow]
    change b.toNat / 2 ^ 63 % 2 ^ 1 = _
    omega
  by_cases hnegative : 2 ^ 63 ≤ b.toNat
  · have hone : unpackSign b = 1#1 := by
      refine BitVec.eq_of_toNat_eq (hsign.trans ?_)
      change b.toNat / 2 ^ 63 = 1
      omega
    rw [hone, decide_eq_true hnegative]
    rfl
  · have hzero : unpackSign b = 0#1 := by
      refine BitVec.eq_of_toNat_eq (hsign.trans ?_)
      change b.toNat / 2 ^ 63 = 0
      omega
    rw [hzero, decide_eq_false hnegative]
    rfl

/-- The parts of some bits, from their fields. -/
theorem ofBits_toNat (b : BitVec Format.binary64.numBits) :
    Parts.ofBits b.toNat =
      if (unpackExponent b).toNat = 2047 then
        if (unpackMantissa b).toNat = 0 then .infinite (decide (2 ^ 63 ≤ b.toNat)) else .notANumber
      else if (unpackExponent b).toNat = 0 then
        .finite (decide (2 ^ 63 ≤ b.toNat)) (unpackMantissa b).toNat (-1074)
      else .finite (decide (2 ^ 63 ≤ b.toNat)) (2 ^ 52 + (unpackMantissa b).toNat)
        ((unpackExponent b).toNat - 1075) := by
  rw [toNat_unpackExponent, toNat_unpackMantissa]
  simp only [Parts.ofBits, beq_iff_eq]
  rfl

theorem exists_ofBits_of_unpackedValue {b : BitVec Format.binary64.numBits} {v : ℝ}
    (h : unpackedValue (unpack .binary64 b) = v) :
    ∃ negative mantissa exponent, Parts.ofBits b.toNat = .finite negative mantissa exponent ∧
      v = signed (signOf negative) (mantissa * 2 ^ exponent) := by
  rw [← @packComponents_unpackSign_unpackExponent_unpackMantissa .binary64 b,
    ofBitVec_unpackSign, unpack_packComponents] at h
  rw [ofBits_toNat]
  generalize decide (2 ^ 63 ≤ b.toNat) = negative at h ⊢
  generalize (unpackExponent b : BitVec 11) = e at h ⊢
  generalize (unpackMantissa b : BitVec 52) = m at h ⊢
  have hinfinite : e.toNat = 2047 ↔ e = -1#11 :=
    ⟨fun h => BitVec.eq_of_toNat_eq h, fun h => by rw [h]; rfl⟩
  have hsubnormal : e.toNat = 0 ↔ e = 0#11 :=
    ⟨fun h => BitVec.eq_of_toNat_eq h, fun h => by rw [h]; rfl⟩
  have hzero : m.toNat = 0 ↔ m = 0#52 :=
    ⟨fun h => BitVec.eq_of_toNat_eq h, fun h => by rw [h]; rfl⟩
  simp only [hinfinite, hsubnormal, hzero]
  split_ifs at h ⊢ with _ _ _ hm
  · cases negative <;> simp [unpackedValue, signOf] at h
  · simp [unpackedValue] at h
  · refine ⟨negative, m.toNat, -1074, rfl, ?_⟩
    have hv : v = 0 := (EReal.coe_injective h).symm
    cases negative <;> simp [hv, hzero.mpr hm, signed, signOf]
  · exact ⟨negative, m.toNat, -1074, rfl, (EReal.coe_injective h).symm⟩
  · refine ⟨negative, _, _, rfl, ?_⟩
    rw [← toNat_one_append]
    exact (EReal.coe_injective h).symm

/-- **The parts of a double say what number it is**, if it is finite. -/
theorem exists_parts_of_value {x : Float} {v : ℝ} (h : value x = v) :
    ∃ negative mantissa exponent, parts x = .finite negative mantissa exponent ∧
      v = signed (signOf negative) (mantissa * 2 ^ exponent) :=
  exists_ofBits_of_unpackedValue (b := x.toBits.toBitVec) h


/-! ## 2. Rounding -/

theorem roundDiv_eq_nearestEven (num : ℕ) {den : ℕ} (hden : 0 < den) :
    (roundDiv num den : ℤ) = nearestEven (num / den : ℝ) := by
  have hpos : (0 : ℝ) < den := by exact_mod_cast hden
  have hfloor : ⌊(num / den : ℝ)⌋ = (num / den : ℕ) := by
    rw [← Nat.floor_div_eq_div (K := ℝ) num den]
    exact (Int.natCast_floor_eq_floor (by positivity)).symm
  have hfract : Int.fract (num / den : ℝ) = (num % den : ℕ) / den :=
    Int.fract_div_natCast_eq_div_natCast_mod
  have hlt : (num % den : ℕ) / (den : ℝ) < 1 / 2 ↔ 2 * (num % den) < den := by
    rw [div_lt_div_iff₀ hpos two_pos, one_mul, mul_comm]
    exact_mod_cast Iff.rfl
  have hgt : 1 / 2 < (num % den : ℕ) / (den : ℝ) ↔ den < 2 * (num % den) := by
    rw [div_lt_div_iff₀ two_pos hpos, one_mul, mul_comm]
    exact_mod_cast Iff.rfl
  simp only [roundDiv, nearestEven, hfract, hfloor, hlt, hgt]
  split_ifs <;> push_cast <;> rfl

theorem quotient_pos (mantissa : ℕ) (exponent : ℤ) : 0 < (quotient mantissa exponent).2 :=
  Nat.two_pow_pos _

theorem quotient_eq (mantissa : ℕ) (exponent : ℤ) :
    ((quotient mantissa exponent).1 : ℝ) / (quotient mantissa exponent).2 =
      mantissa * 2 ^ exponent := by
  have hpow (n : ℕ) : ((Nat.pow 2 n : ℕ) : ℝ) = 2 ^ n := by
    rw [Nat.pow_eq]
    push_cast
    rfl
  simp only [quotient, Nat.cast_mul, hpow]
  rcases le_total 0 exponent with h | h
  · obtain ⟨n, rfl⟩ := Int.eq_ofNat_of_zero_le h
    simp
  · obtain ⟨n, hn⟩ := Int.eq_ofNat_of_zero_le (Int.neg_nonneg.mpr h)
    obtain rfl : exponent = -n := by omega
    simp [div_eq_mul_inv]

/-! ## 3. Digits -/

theorem isDigit_of_mem_padded {width n : ℕ} {c : Char} (h : c ∈ padded width n) :
    Text.isDigit c = true := by
  rcases List.mem_append.mp h with h | h
  · rw [(List.mem_replicate.mp h).2]
    rfl
  · exact Text.isDigit_of_mem_toDigits h

theorem le_length_padded (width n : ℕ) : width ≤ (padded width n).length := by
  simp only [padded, List.length_append, List.length_replicate]
  omega

theorem naturalOf_padded (width n : ℕ) : Text.naturalOf (padded width n) = n := by
  have hzeros (count : ℕ) (t : Text) :
      Text.naturalOf (List.replicate count '0' ++ t) = Text.naturalOf t := by
    induction count with
    | zero => rfl
    | succ count ih => exact ih
  rw [padded, hzeros]
  exact Text.foldl_toDigits (by decide)
    (fun d hd => by rw [Text.digit?_digitChar d hd]; rfl) n

/-- The text of a finite double is a decimal number with `places` digits behind the point. -/
theorem isDecimal_fixed {x : Float} {negative : Bool} {mantissa : ℕ} {exponent : ℤ}
    (h : parts x = .finite negative mantissa exponent) (places : ℕ) :
    let q := quotient mantissa exponent
    Text.IsDecimal negative (roundDiv (q.1 * Nat.pow 10 places) q.2) (-places)
      (fixed places x).toList := by
  intro q
  have hsign : Text.IsSign negative (signText negative).toList := by
    cases negative
    · exact .none
    · exact .minus
  set digits := padded (places + 1) (roundDiv (q.1 * Nat.pow 10 places) q.2)
  have hlength : places + 1 ≤ digits.length := le_length_padded _ _
  have hdigit : ∀ c ∈ digits, Text.isDigit c = true := fun c hc => isDigit_of_mem_padded hc
  have hvalue : Text.naturalOf digits = roundDiv (q.1 * Nat.pow 10 places) q.2 :=
    naturalOf_padded _ _
  have htext : (fixed places x).toList = (signText negative).toList ++
      (digits.take (digits.length - places) ++
        if places == 0 then [] else '.' :: digits.drop (digits.length - places)) := by
    rw [fixed, h, String.toList_append, String.toList_ofList]
  have hwhole : ∀ c ∈ digits.take (digits.length - places), Text.isDigit c = true :=
    fun c hc => hdigit c (List.mem_of_mem_take hc)
  rw [htext, ← hvalue]
  refine .mk hsign ?_
  rcases Nat.eq_zero_or_pos places with rfl | hpos
  · have hmagnitude := Text.IsMagnitude.mk hwhole .none (by
      rw [List.append_nil, Nat.sub_zero, List.take_length]
      exact List.ne_nil_of_length_pos (by omega)) .none
    simpa using hmagnitude
  · have hmagnitude := Text.IsMagnitude.mk hwhole
      (.point fun c hc => hdigit c (List.mem_of_mem_drop hc)) (by
        rw [List.take_append_drop]
        exact List.ne_nil_of_length_pos (by omega)) .none
    rw [List.take_append_drop, List.length_drop, List.append_nil] at hmagnitude
    have hplaces : (0 : ℤ) - ((digits.length - (digits.length - places) : ℕ) : ℤ) = -places := by
      omega
    rw [hplaces] at hmagnitude
    rw [if_neg (by simpa using hpos.ne')]
    exact hmagnitude

/-- **A finite double is written as the nearest decimal** with that many places, the even one of two
that are equally near. -/
theorem readDecimal_fixed {x : Float} {v : ℝ} (h : value x = v) (places : ℕ) :
    ∃ negative n, Text.readDecimal (fixed places x).toList = .ok (.finite negative n (-places)) ∧
      Text.signed negative n = nearestEven (v * 10 ^ places) := by
  obtain ⟨negative, mantissa, exponent, hparts, rfl⟩ := exists_parts_of_value h
  refine ⟨negative, _, Text.readDecimal_eq_finite_iff.mpr (isDecimal_fixed hparts places), ?_⟩
  have hscaled : ((((quotient mantissa exponent).1 * Nat.pow 10 places : ℕ) : ℝ) /
      (quotient mantissa exponent).2) = mantissa * 2 ^ exponent * 10 ^ places := by
    have hpow : ((Nat.pow 10 places : ℕ) : ℝ) = 10 ^ places := by
      rw [Nat.pow_eq]
      push_cast
      rfl
    rw [Nat.cast_mul, hpow, mul_div_right_comm, quotient_eq]
  have hround := roundDiv_eq_nearestEven ((quotient mantissa exponent).1 * Nat.pow 10 places)
    (quotient_pos mantissa exponent)
  rw [hscaled] at hround
  cases negative with
  | false => exact hround
  | true =>
    have hneg : signed (signOf true) (mantissa * 2 ^ exponent : ℝ) * 10 ^ places =
        -(mantissa * 2 ^ exponent * 10 ^ places) := neg_mul _ _
    rw [hneg, nearestEven_neg, ← hround]
    rfl

end Motion.Double
