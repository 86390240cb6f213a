/-
# Decimals as doubles

The double that a decimal is read as is the nearest one to it (`value_ofDecimal`).  Which
computation gives it depends on the size of the decimal and on its digits.

* From 10^310 on it is the infinity, and below 10^-330 zero.  Both are what rounding gives, since
  neither the greatest nor the least double is that far away (`two_pow_le_decimal`,
  `decimal_lt_two_pow`).
* Few digits and a small power of ten are doubles themselves (`value_toFloat`, `value_powerOfTen`),
  and one multiplication or division of doubles rounds the result once.
* Otherwise the digits and the power of ten are mantissas of any length, and again one
  multiplication or division rounds once (`ofScientific_spec`).
-/
import Motion.Proofs.Number.Quotients

namespace Motion.Double

open Float.Model (UnpackedFloat)
open Float.Model.UnpackedFloat (Sign roundWithAccuracy)

/-! ## 1. Out of range -/

theorem round_of_large {x : ℝ} (h : 2 ^ 1024 ≤ x) : round x = ⊤ := by
  have hdouble : IsDouble (2 ^ 1024) := ⟨1, 1024, by norm_num, by norm_num, by norm_num⟩
  have hround : round ((2 ^ 1024 : ℝ) : EReal) = ⊤ := by
    rw [round_coe, nearest_of_isDouble hdouble, overflow, if_pos le_rfl]
  refine top_le_iff.mp ?_
  rw [← hround]
  exact monotone_round (EReal.coe_le_coe_iff.mpr h)

/-- What is less than half of the least double is rounded to zero. -/
theorem round_of_small {x : ℝ} (hnonneg : 0 ≤ x) (h : x < 2 ^ (-1075 : ℤ)) : round x = 0 := by
  have hzero : nearest x = 0 := by
    rcases hnonneg.eq_or_lt with rfl | hpos
    · exact nearest_zero
    · have hlog : Int.log 2 x < -1075 :=
        (Int.lt_zpow_iff_log_lt one_lt_two hpos).mp (by exact_mod_cast h)
      have hplace : lastPlace x = -1074 := by
        rw [lastPlace, abs_of_pos hpos]
        omega
      have hhalf : x / 2 ^ (-1074 : ℤ) < 1 / 2 := by
        rw [div_lt_iff₀ (by positivity)]
        calc x < 2 ^ (-1075 : ℤ) := h
          _ = 1 / 2 * 2 ^ (-1074 : ℤ) := by
            rw [show (-1075 : ℤ) = -1 + -1074 by norm_num, zpow_add₀ two_ne_zero]
            norm_num
      have hfloor : ⌊x / 2 ^ (-1074 : ℤ)⌋ = 0 :=
        Int.floor_eq_zero_iff.mpr ⟨by positivity, hhalf.trans (by norm_num)⟩
      have heven : nearestEven (x / 2 ^ (-1074 : ℤ)) = 0 := by
        rw [nearestEven, Int.fract, hfloor, Int.cast_zero, sub_zero, if_pos hhalf]
      rw [nearest, hplace, nearestOn, heven, Int.cast_zero, zero_mul]
  rw [round_coe, hzero, overflow_of_abs_lt (by simp)]
  rfl

theorem overflow_neg (x : ℝ) : overflow (-x) = -overflow x := by
  have hfar {y : ℝ} (hy : 2 ^ 1024 ≤ y) : overflow y = ⊤ ∧ overflow (-y) = ⊥ :=
    ⟨overflow_signed (s := .positive) hy, overflow_signed (s := .negative) hy⟩
  rcases lt_or_ge |x| (2 ^ 1024) with hx | hx
  · rw [overflow_of_abs_lt hx, overflow_of_abs_lt (by rwa [abs_neg]), EReal.coe_neg]
  · rcases le_abs.mp hx with hx | hx
    · rw [(hfar hx).1, (hfar hx).2, EReal.neg_top]
    · have hneg := hfar hx
      rw [neg_neg] at hneg
      rw [hneg.1, hneg.2, EReal.neg_bot]

theorem round_neg (x : ℝ) : round ((-x : ℝ) : EReal) = -round x := by
  rw [round_coe, nearest_neg, overflow_neg, round_coe]

/-! ## 2. Whole numbers and powers of ten -/

/-- What packing makes of an unpacked float that is rounded already. -/
theorem value_pack {u : UnpackedFloat} (hu : Rounded u) (hnan : u.isNaN = false) {x : ℝ}
    (hx : unpackedValue u = (nearest x : ℝ)) :
    (Float.ofModel (.pack u)).isNaN = false ∧ value (.ofModel (.pack u)) = round x :=
  ⟨(isNaN_unpack_pack hu).trans hnan, unpackedValue_unpack_pack hu hx⟩

/-- Whole numbers of at most 53 binary digits are not rounded. -/
theorem round_whole {m : ℕ} (h : m < 2 ^ 53) : round (m : ℝ) = (m : ℝ) := by
  have hdouble : IsDouble (m : ℝ) :=
    ⟨m, 0, by simp, by rw [Nat.abs_cast]; exact_mod_cast h, by norm_num⟩
  refine round_of_isDouble hdouble ?_
  rw [Nat.abs_cast]
  calc (m : ℝ) < 2 ^ 53 := by exact_mod_cast h
    _ ≤ 2 ^ 1024 := pow_le_pow_right₀ one_le_two (by norm_num)

theorem value_toFloat {m : ℕ} (h : m < 2 ^ 53) : value m.toUInt64.toFloat = (m : ℝ) := by
  have hspec := normalize_spec m 0 .positive
  have hm : (m.toUInt64.toNat : ℤ) = m := by
    rw [UInt64.toNat_ofNat_of_lt']
    exact h.trans (by decide)
  have hfloat : m.toUInt64.toFloat = .ofModel (.pack (.normalize .binary64 m 0 .positive)) := by
    rw [← hm]
    rfl
  rw [zpow_zero, mul_one] at hspec
  rw [hfloat, (value_pack hspec.1 (isNaN_normalize ..) hspec.2).2]
  exact round_whole h

/-- An unpacked float that stands for a power of ten. -/
def isPowerOfTen (e : ℕ) : UnpackedFloat → Bool
  | .finite .positive m k _ => m * 2 ^ k.toNat == 10 ^ e * 2 ^ (-k).toNat
  | _ => false

theorem isPowerOfTen_table :
    ∀ e : Fin 23, isPowerOfTen e (unpacked Float.exactlyRepresentablePowersOfTen[e]) := by
  decide +kernel

theorem value_powerOfTen {e : ℕ} (h : e < Float.exactlyRepresentablePowersOfTen.size) :
    value Float.exactlyRepresentablePowersOfTen[e] = (10 ^ e : ℝ) := by
  have htable := isPowerOfTen_table ⟨e, h⟩
  simp only [Fin.getElem_fin] at htable
  rw [value]
  cases hu : unpacked Float.exactlyRepresentablePowersOfTen[e] with
  | finite s m k hm =>
    rw [hu] at htable
    cases s with
    | negative => cases htable
    | positive =>
      have hnat : m * 2 ^ k.toNat = 10 ^ e * 2 ^ (-k).toNat := by simpa [isPowerOfTen] using htable
      have hreal : (m : ℝ) * 2 ^ k.toNat = 10 ^ e * 2 ^ (-k).toNat := by exact_mod_cast hnat
      have hsplit : (2 : ℝ) ^ k * 2 ^ (-k).toNat = 2 ^ k.toNat := by
        rw [← zpow_natCast, ← zpow_natCast, ← zpow_add₀ two_ne_zero]
        congr 1
        omega
      rw [unpackedValue_finite, signed]
      congr 1
      refine mul_right_cancel₀ (b := (2 : ℝ) ^ (-k).toNat) (by positivity) ?_
      rw [mul_assoc, hsplit, hreal]
  | _ =>
    rw [hu] at htable
    cases htable

/-! ## 3. Orders of magnitude -/

theorem decimalLength_le_iff {n k : ℕ} (hk : 0 < k) : decimalLength n ≤ k ↔ n < 10 ^ k :=
  Nat.length_toDigits_le_iff (by norm_num) hk

/-- The number of its digits tells the order of magnitude of a whole number. -/
theorem pow_decimalLength {n : ℕ} (hn : 0 < n) :
    10 ^ (decimalLength n - 1) ≤ n ∧ n < 10 ^ decimalLength n := by
  have hpos : 0 < decimalLength n := List.length_pos_of_ne_nil Nat.toDigits_ne_nil
  refine ⟨?_, (decimalLength_le_iff hpos).mp le_rfl⟩
  rcases Nat.eq_zero_or_pos (decimalLength n - 1) with hone | hmore
  · rw [hone]
    exact hn
  · refine not_lt.mp fun hlt => ?_
    have hshorter := (decimalLength_le_iff hmore).mpr hlt
    omega

theorem decimalLength_le_log2 (n : ℕ) : decimalLength n ≤ n.log2 + 1 := by
  rw [decimalLength_le_iff (by omega)]
  calc n < 2 ^ (n.log2 + 1) := Nat.lt_log2_self
    _ ≤ 10 ^ (n.log2 + 1) := Nat.pow_le_pow_left (by norm_num) _

theorem two_pow_1024_le : 2 ^ 1024 ≤ 10 ^ 310 := by decide +kernel

theorem two_pow_1075_le : 2 ^ 1075 ≤ 10 ^ 331 := by decide +kernel

/-- With more than 310 places before the point, a decimal is out of the range of doubles. -/
theorem two_pow_le_decimal {n : ℕ} (hn : 0 < n) {e : ℤ} (h : 310 < e + decimalLength n) :
    (2 : ℝ) ^ 1024 ≤ n * 10 ^ e := by
  have hpower : (2 : ℝ) ^ 1024 ≤ 10 ^ 310 := by exact_mod_cast two_pow_1024_le
  calc (2 : ℝ) ^ 1024 ≤ 10 ^ ((310 : ℕ) : ℤ) := hpower.trans_eq (zpow_natCast 10 310).symm
    _ ≤ 10 ^ (((decimalLength n - 1 : ℕ) : ℤ) + e) :=
      zpow_le_zpow_right₀ (by norm_num) (by omega)
    _ = ((10 ^ (decimalLength n - 1) : ℕ) : ℝ) * 10 ^ e := by
      rw [zpow_add₀ (by norm_num), zpow_natCast, Nat.cast_pow, Nat.cast_ofNat]
    _ ≤ n * 10 ^ e :=
      mul_le_mul_of_nonneg_right (by exact_mod_cast (pow_decimalLength hn).1) (by positivity)

/-- With 330 zeros behind the point, a decimal is less than half of the least double. -/
theorem decimal_lt_two_pow {n : ℕ} (hn : 0 < n) {e : ℤ} (h : e + decimalLength n < -330) :
    (n : ℝ) * 10 ^ e < 2 ^ (-1075 : ℤ) := by
  have hpower : (2 : ℝ) ^ 1075 ≤ 10 ^ 331 := by exact_mod_cast two_pow_1075_le
  calc (n : ℝ) * 10 ^ e < ((10 ^ decimalLength n : ℕ) : ℝ) * 10 ^ e :=
        mul_lt_mul_of_pos_right (by exact_mod_cast (pow_decimalLength hn).2) (by positivity)
    _ = 10 ^ ((decimalLength n : ℤ) + e) := by
      rw [zpow_add₀ (by norm_num), zpow_natCast, Nat.cast_pow, Nat.cast_ofNat]
    _ ≤ 10 ^ (-331 : ℤ) := zpow_le_zpow_right₀ (by norm_num) (by omega)
    _ ≤ 2 ^ (-1075 : ℤ) := by
      rw [zpow_neg, zpow_neg]
      exact inv_anti₀ (by positivity) hpower

/-! ## 4. Digits and a power of ten -/

/-- Digits times a power of ten, with 53 places in front of those that are needed. -/
theorem mul_powerOfTen {m : ℕ} (hm : 0 < m) (k : ℕ) {h₁ : 0 < m <<< 53} {h₂ : 0 < 10 ^ k} :
    let product := UnpackedFloat.mul .binary64 (.finite .positive (m <<< 53) (-53) h₁)
      (.finite .positive (10 ^ k) 0 h₂)
    Rounded product ∧ product.isNaN = false ∧
      unpackedValue product = (nearest (m * 10 ^ k) : ℝ) := by
  intro product
  have hfinite : product =
      roundWithAccuracy .binary64 .positive (m <<< 53 * 10 ^ k) (-53) .exact := rfl
  have hproduct : ((m <<< 53 * 10 ^ k : ℕ) : ℝ) * 2 ^ (-53 : ℤ) = m * 10 ^ k := by
    have hshift : (2 : ℝ) ^ 53 * 2 ^ (-53 : ℤ) = 1 := by norm_num
    rw [Nat.shiftLeft_eq, Nat.cast_mul, Nat.cast_mul, Nat.cast_pow, Nat.cast_pow, Nat.cast_ofNat,
      Nat.cast_ofNat]
    linear_combination (m : ℝ) * 10 ^ k * hshift
  have hone : (1 : ℝ) ≤ m * 10 ^ k := by exact_mod_cast Nat.mul_pos hm h₂
  have hplace : (-53 : ℤ) ≤ lastPlace (((m <<< 53 * 10 ^ k : ℕ) : ℝ) * 2 ^ (-53 : ℤ)) := by
    have hlog : 0 ≤ Int.log 2 (m * 10 ^ k : ℝ) :=
      (Int.zpow_le_iff_le_log one_lt_two (by linarith)).mp (by rwa [zpow_zero])
    rw [hproduct, lastPlace, abs_of_pos (by linarith)]
    omega
  obtain ⟨hrounded, hvalue⟩ := roundWithAccuracy_spec .positive (Nat.mul_pos h₁ h₂) hplace
  rw [hproduct, signed] at hvalue
  rw [hfinite]
  exact ⟨hrounded, isNaN_roundWithAccuracy .., hvalue⟩

/-- Digits divided by a power of ten. -/
theorem div_powerOfTen {m : ℕ} (hm : 0 < m) (k : ℕ) {h₂ : 0 < 10 ^ k} :
    let quotient := UnpackedFloat.div .binary64 (.finite .positive m 0 hm)
      (.finite .positive (10 ^ k) 0 h₂)
    Rounded quotient ∧ quotient.isNaN = false ∧
      unpackedValue quotient = (nearest (m * 10 ^ (-k : ℤ)) : ℝ) := by
  have hpower : ((10 ^ k : ℕ) : ℝ) * 2 ^ (0 : ℤ) = 10 ^ k := by
    rw [zpow_zero, mul_one, Nat.cast_pow, Nat.cast_ofNat]
  have hspec := div_spec (unpackedValue_finite .positive m 0 hm)
    (unpackedValue_finite .positive (10 ^ k) 0 h₂) (by rw [signed, hpower]; positivity)
  rwa [signed, signed, hpower, zpow_zero, mul_one, div_eq_mul_inv, ← zpow_natCast, ← zpow_neg]
    at hspec

/-- **Digits and a power of ten of any size** are rounded once. -/
theorem ofScientific_spec (m : ℕ) (e : ℤ) :
    (Float.ofModel (.ofScientific m e)).isNaN = false ∧
      value (.ofModel (.ofScientific m e)) = round (m * 10 ^ e : ℝ) := by
  have hpack : Float.ofModel (.ofScientific m e) =
    .ofModel (.pack (.ofScientific .binary64 m e)) := rfl
  rw [hpack]
  unfold UnpackedFloat.ofScientific
  split
  case isTrue hm =>
    rw [hm, Nat.cast_zero, zero_mul, round_of_small le_rfl (by positivity)]
    exact ⟨rfl, rfl⟩
  case isFalse hm =>
    have hpos : 0 < m := Nat.pos_of_ne_zero hm
    split
    case isTrue hlarge =>
      change (2 : ℤ) ^ 11 < e at hlarge
      rw [round_of_large (two_pow_le_decimal hpos (by omega))]
      exact ⟨rfl, rfl⟩
    case isFalse =>
      split
      case isTrue hsmall =>
        have hlength := decimalLength_le_log2 m
        change e < -((2 : ℤ) ^ 11 + m.log2) at hsmall
        rw [round_of_small (by positivity) (decimal_lt_two_pow hpos (by omega))]
        exact ⟨rfl, rfl⟩
      case isFalse =>
        split
        case isTrue he =>
          obtain ⟨hrounded, hnan, hvalue⟩ := mul_powerOfTen hpos e.toNat
          rw [← zpow_natCast, Int.toNat_of_nonneg he] at hvalue
          exact value_pack hrounded hnan hvalue
        case isFalse he =>
          obtain ⟨hrounded, hnan, hvalue⟩ := div_powerOfTen hpos (-e).toNat
          rw [Int.toNat_of_nonneg (by omega), neg_neg] at hvalue
          exact value_pack hrounded hnan hvalue

theorem value_ofScientific (m : ℕ) (s : Bool) (e : ℕ) :
    (Float.ofScientific m s e).isNaN = false ∧
      value (Float.ofScientific m s e) = round (m * 10 ^ (if s then -(e : ℤ) else e) : ℝ) := by
  unfold Float.ofScientific
  split
  case isTrue h =>
    have hdigits := value_toFloat h.1
    have hsize : Float.exactlyRepresentablePowersOfTen.size = 23 := rfl
    have hpower := value_powerOfTen (e := e) (by omega)
    cases s with
    | true =>
      have hspec := value_div hdigits hpower (by positivity)
      rwa [div_eq_mul_inv, ← zpow_natCast, ← zpow_neg] at hspec
    | false =>
      have hspec := value_mul (isFinite_iff_value.mpr ⟨_, hdigits⟩)
        (isFinite_iff_value.mpr ⟨_, hpower⟩)
      rwa [hdigits, hpower, ← EReal.coe_mul, ← zpow_natCast] at hspec
  case isFalse h =>
    cases s with
    | true =>
      have hspec := ofScientific_spec m (Int.negOfNat e)
      rwa [Int.negOfNat_eq] at hspec
    | false => exact ofScientific_spec m e

/-! ## 5. Decimals -/

/-- The number that a decimal writes. -/
noncomputable def decimal (negative : Bool) (digits : ℕ) (exponent : ℤ) : ℝ :=
  (if negative then -1 else 1) * (digits * (10 : ℕ) ^ exponent)

theorem value_ofMagnitude (digits : ℕ) (exponent : ℤ) :
    (ofMagnitude digits exponent).isNaN = false ∧
      value (ofMagnitude digits exponent) = round (digits * 10 ^ exponent : ℝ) := by
  unfold ofMagnitude
  split
  case isTrue hzero =>
    rw [eq_of_beq hzero, Nat.cast_zero, zero_mul, round_of_small le_rfl (by positivity)]
    exact ⟨rfl, rfl⟩
  case isFalse hzero =>
    have hpos : 0 < digits := Nat.pos_of_ne_zero (by simpa using hzero)
    simp only
    split
    case isTrue hlarge =>
      rw [round_of_large (two_pow_le_decimal hpos hlarge)]
      exact ⟨rfl, rfl⟩
    case isFalse hlarge =>
      split
      case isTrue hsmall =>
        rw [round_of_small (by positivity) (decimal_lt_two_pow hpos hsmall)]
        exact ⟨rfl, rfl⟩
      case isFalse hsmall =>
        split
        case isTrue hneg =>
          have hspec := value_ofScientific digits true (-exponent).toNat
          rwa [if_pos rfl, Int.toNat_of_nonneg (by omega), neg_neg] at hspec
        case isFalse hnonneg =>
          have hspec := value_ofScientific digits false exponent.toNat
          rwa [if_neg Bool.false_ne_true, Int.toNat_of_nonneg (by omega)] at hspec

/-- **The double of a decimal is the nearest one to the number that it writes.** -/
theorem value_ofDecimal (negative : Bool) (digits : ℕ) (exponent : ℤ) :
    (ofDecimal negative digits exponent).isNaN = false ∧
      value (ofDecimal negative digits exponent) = round (decimal negative digits exponent) := by
  obtain ⟨hnan, hvalue⟩ := value_ofMagnitude digits exponent
  cases negative with
  | false =>
    rw [ofDecimal, decimal, if_neg Bool.false_ne_true, if_neg Bool.false_ne_true, one_mul,
      Nat.cast_ofNat]
    exact ⟨hnan, hvalue⟩
  | true =>
    obtain ⟨hnan', hneg⟩ := value_neg hnan
    rw [ofDecimal, decimal, if_pos rfl, if_pos rfl, neg_one_mul, Nat.cast_ofNat, round_neg,
      ← hvalue]
    exact ⟨hnan', hneg⟩

end Motion.Double
