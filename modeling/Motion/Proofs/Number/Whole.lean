/-
# Whole numbers and doubles

A whole number of 32 bits is a double (`value_ofNat`), so nothing is lost on the way to doubles, and
on the way back only what stands behind the point or is out of range.

* **Equal fractions are the same double** (`fractions_double`), not only doubles of the same value:
  the quotient of two whole numbers is rounded once, and zero divided by a whole number has no sign.
* **The whole part** of a double is brought into the range of counts (`truncate_of_value`): the
  mantissa is shifted to the point, and the digits that are shifted out do not count.
* **The count above a double** is the least whole number that the double does not exceed, in the
  same range (`ceilCount_eq_countAbove`).  It keeps the order of the doubles.
-/
import Motion.Proofs.Number.Decimals
import Motion.Proofs.Number.Hypotenuse

namespace Motion

/-- Fractions can be expanded: with equal multiples of both numbers the quotient is the same. -/
def Scalar.Fractions (α : Type) [Scalar α] : Prop :=
  ∀ {k n m : ℕ}, k ≤ n → 0 < n → 0 < m → n * m < UInt32.size →
    (ofNat (k * m) / ofNat (n * m) : α) = ofNat k / ofNat n

namespace Double

open Float.Model.UnpackedFloat

variable {a b : Float} {x y : ℝ} {n : ℕ}

/-! ## 1. Whole numbers -/

/-- Whole numbers of at most 53 binary digits are doubles. -/
theorem value_ofNat (hn : n < 2 ^ 53) : value (Scalar.ofNat n) = (n : ℝ) := by
  have hspec := (value_ofScientific n false 0).2
  have hscale : (n : ℝ) * 10 ^ (if false = true then -((0 : ℕ) : ℤ) else ((0 : ℕ) : ℤ)) = n := by
    simp
  rw [hscale, round_whole hn] at hspec
  exact hspec

theorem value_ofNat_count (hn : n ≤ Scalar.countLimit) : value (Scalar.ofNat n) = (n : ℝ) :=
  value_ofNat (lt_of_le_of_lt hn (by decide))

/-! ## 2. Fractions -/

/-- Doubles of the same value are the same, unless it is zero. -/
theorem eq_of_value_eq (ha : value a = x) (hb : value b = x) (hx : x ≠ 0) : a = b := by
  have hbeq : a == b :=
    (beq_iff_value (isNaN_of_value ha) (isNaN_of_value hb)).mpr (ha.trans hb.symm)
  have hzero : value 0 = (0 : ℝ) := value_of_unpacked_zero unpacked_zero
  rcases (Float.beq_iff_ne_nan_and_eq.mp hbeq).2.2 with heq | ⟨rfl, -⟩ | ⟨-, rfl⟩
  · exact heq
  · exact absurd (EReal.coe_injective (ha.symm.trans hzero)) hx
  · exact absurd (EReal.coe_injective (hb.symm.trans hzero)) hx

theorem zero_div_of_pos (hb : value b = y) (hy : 0 < y) : Scalar.zero / b = Scalar.zero := by
  have hdiv : Scalar.zero / b = .ofModel (.pack (div .binary64 (.zero .positive) (unpacked b))) :=
    rfl
  rw [hdiv]
  rcases zero_or_finite hb with ⟨s, -, rfl⟩ | ⟨s, m, e, hm, hu, rfl⟩
  · exact absurd hy (lt_irrefl 0)
  · rw [hu]
    cases s with
    | positive => rfl
    | negative => exact absurd hy (neg_neg_of_pos (by positivity)).not_gt

/-- A fraction of whole numbers is at least two to the power of -32, so it is no zero. -/
theorem between_fraction {k : ℕ} (hk : 0 < k) (hkn : k ≤ n) (hn : n < UInt32.size) :
    value (Scalar.ofNat k / Scalar.ofNat n) = round (k / n : ℝ) ∧
      Between (Scalar.ofNat k / Scalar.ofNat n) (2 ^ (-32 : ℤ)) 1 := by
  have hsize : UInt32.size = 2 ^ 32 := rfl
  have hpos : (0 : ℝ) < n := Nat.cast_pos.mpr (hk.trans_le hkn)
  have hvalue := (value_div (value_ofNat (n := k) (by omega)) (value_ofNat (n := n) (by omega))
    hpos.ne').2
  have hlow : IsBound (2 ^ (-32 : ℤ)) := isBound_zpow (by norm_num) (by norm_num)
  refine ⟨hvalue, between_of_round hvalue hlow isBound_one ⟨?_, ?_⟩⟩
  · have hsmall : (n : ℝ) ≤ 2 ^ 32 := by
      exact_mod_cast (hn.le : n ≤ 2 ^ 32)
    have hwhole : (1 : ℝ) ≤ k := Nat.one_le_cast.mpr hk
    rw [le_div_iff₀ hpos, zpow_neg, ← div_eq_inv_mul, div_le_iff₀ (by positivity)]
    calc (n : ℝ) ≤ 1 * 2 ^ 32 := by rwa [one_mul]
      _ ≤ k * 2 ^ (32 : ℤ) := mul_le_mul_of_nonneg_right hwhole (by positivity)
  · exact (div_le_one hpos).mpr (Nat.cast_le.mpr hkn)

/-- **Equal fractions are the same double.** -/
theorem fractions_double : Scalar.Fractions Float := by
  intro k n m hkn hn hm hsize
  have hlarge : n ≤ n * m := Nat.le_mul_of_pos_right n hm
  have hpos : 0 < n * m := Nat.mul_pos hn hm
  have hlimit : UInt32.size = 2 ^ 32 := rfl
  rcases Nat.eq_zero_or_pos k with rfl | hk
  · -- both quotients are the zero without a sign
    have hzero {i : ℕ} (hi : 0 < i) (hlt : i < UInt32.size) :
        (Scalar.ofNat 0 / Scalar.ofNat i : Float) = Scalar.zero :=
      zero_div_of_pos (value_ofNat (by omega)) (Nat.cast_pos.mpr hi)
    rw [zero_mul, hzero hpos hsize, hzero hn (by omega)]
  · obtain ⟨hvalue, x, hx, hlow, -⟩ := between_fraction hk hkn (by omega)
    obtain ⟨hvalue', -⟩ :=
      between_fraction (Nat.mul_pos hk hm) (Nat.mul_le_mul_right m hkn) hsize
    have hsame : ((k * m : ℕ) / (n * m : ℕ) : ℝ) = k / n := by
      rw [Nat.cast_mul, Nat.cast_mul]
      exact mul_div_mul_right _ _ (Nat.cast_ne_zero.mpr hm.ne')
    rw [hsame, ← hvalue, hx] at hvalue'
    exact eq_of_value_eq hvalue' hx (lt_of_lt_of_le (by positivity) hlow).ne'

/-! ## 3. The whole part -/

theorem roundToInt_eq (s : Sign) (m : ℕ) (e : ℤ) :
    roundToInt s m e = s.apply ⌊(m * 2 ^ e : ℝ)⌋ := by
  have hrepresents := (represents_natCast (m <<< (e - 0).toNat)).shiftRight
    (0 - (e - (e - 0).toNat)).toNat
  have hshifts : ((m <<< (e - 0).toNat : ℕ) : ℝ) / 2 ^ (0 - (e - (e - 0).toNat)).toNat =
      m * 2 ^ e := by
    rw [Nat.shiftLeft_eq, Nat.cast_mul, Nat.cast_pow, Nat.cast_ofNat, mul_div_assoc,
      ← zpow_natCast, ← zpow_natCast, ← zpow_sub₀ two_ne_zero]
    congr 2
    omega
  rw [hshifts] at hrepresents
  exact congrArg s.apply hrepresents.floor.symm

theorem toNat_roundToInt (s : Sign) (m : ℕ) (e : ℤ) :
    (roundToInt s m e).toNat = ⌊signed s (m * 2 ^ e)⌋₊ := by
  have hnonneg : (0 : ℝ) ≤ m * 2 ^ e := by positivity
  rw [roundToInt_eq]
  cases s with
  | positive => exact Int.floor_toNat _
  | negative =>
    have hfloor : 0 ≤ ⌊(m * 2 ^ e : ℝ)⌋ := Int.floor_nonneg.mpr hnonneg
    rw [signed, Nat.floor_of_nonpos (neg_nonpos.mpr hnonneg), Sign.apply]
    omega

theorem toNat_ofNatClamp (n : ℕ) : (UInt32.ofNatClamp n).toNat = min n Scalar.countLimit := by
  have hlimit : Scalar.countLimit + 1 = UInt32.size := rfl
  rcases Nat.lt_or_ge n UInt32.size with hlt | hge
  · rw [UInt32.toNat_ofNatClamp_of_lt hlt]
    omega
  · rw [UInt32.toNat_ofNatClamp_of_le hge]
    omega

theorem truncate_eq (a : Float) :
    Scalar.truncate a = min (toInt 0 (UInt32.size - 1) (unpacked a)).toNat Scalar.countLimit :=
  toNat_ofNatClamp _

/-- **The whole part of a double**, brought into the range of counts. -/
theorem truncate_of_value (ha : value a = x) :
    Scalar.truncate a = min ⌊x⌋₊ Scalar.countLimit := by
  rw [truncate_eq]
  rcases zero_or_finite ha with ⟨s, hu, rfl⟩ | ⟨s, m, e, hm, hu, rfl⟩
  · rw [hu, Nat.floor_zero]
    rfl
  · rw [hu, ← toNat_roundToInt]
    rfl

/-! ## 4. Counts -/

/-- The least count that a number does not exceed. -/
noncomputable def countAbove : EReal → ℕ
  | ⊥ => 0
  | ⊤ => Scalar.countLimit
  | (x : ℝ) => min ⌈x⌉₊ Scalar.countLimit

@[simp] theorem countAbove_bot : countAbove ⊥ = 0 := rfl

@[simp] theorem countAbove_top : countAbove ⊤ = Scalar.countLimit := rfl

theorem countAbove_coe (x : ℝ) : countAbove x = min ⌈x⌉₊ Scalar.countLimit := rfl

theorem monotone_countAbove : Monotone countAbove := by
  intro x y hxy
  induction x with
  | bot => exact Nat.zero_le _
  | top => rw [top_le_iff.mp hxy]
  | coe x =>
    induction y with
    | bot => exact absurd hxy (EReal.bot_lt_coe x).not_ge
    | top => exact min_le_right _ _
    | coe y =>
      rw [countAbove_coe, countAbove_coe]
      exact min_le_min_right _ (Nat.ceil_mono (EReal.coe_le_coe_iff.mp hxy))

/-- The infinity is cut off at the greatest count, and nothing is left of its negative. -/
theorem ceilCount_of_infinity {s : Sign} (hs : unpacked a = .infinity s) :
    Scalar.ceilCount a = countAbove (unpackedValue (.infinity s)) := by
  have htruncate := truncate_eq a
  rw [hs] at htruncate
  cases s with
  | positive =>
    have hlimit : Scalar.truncate a = Scalar.countLimit := htruncate
    change Scalar.ceilCount a = countAbove ⊤
    simp [Scalar.ceilCount, hlimit]
  | negative =>
    have hzero : Scalar.truncate a = 0 := htruncate
    have hvalue : value a = ⊥ := congrArg unpackedValue hs
    have hnan : a.isNaN = false := congrArg isNaN hs
    have hwhole : value (Scalar.ofNat 0) = ((0 : ℕ) : ℝ) := value_ofNat (by norm_num)
    have hless : Scalar.lt (Scalar.ofNat 0) a = false := by
      refine decide_eq_false fun hlt => ?_
      have hbot := (lt_iff_value (isNaN_of_value hwhole) hnan).mp hlt
      rw [hvalue] at hbot
      exact not_lt_bot hbot
    change Scalar.ceilCount a = countAbove ⊥
    simp [Scalar.ceilCount, hzero, hless]

/-- **The count above a double** is the count above its number. -/
theorem ceilCount_eq_countAbove (ha : a.isNaN = false) :
    Scalar.ceilCount a = countAbove (value a) := by
  rcases finite_or_infinity ha with hfinite | ⟨s, hs⟩
  · obtain ⟨x, hx⟩ := isFinite_iff_value.mp hfinite
    rw [hx, countAbove_coe]
    refine Scalar.ceilCount_eq_min (truncate_of_value hx) ?_
    intro n hn
    have hvalue := value_ofNat_count hn
    refine decide_eq_true_iff.trans ((lt_iff_value (isNaN_of_value hvalue) ha).trans ?_)
    rw [hvalue, hx, EReal.coe_lt_coe_iff]
  · rw [ceilCount_of_infinity hs, value, hs]

/-- Counts keep the order of the doubles that they are above. -/
theorem ceilCount_le_ceilCount (ha : a.isNaN = false) (hb : b.isNaN = false)
    (hab : value a ≤ value b) : Scalar.ceilCount a ≤ Scalar.ceilCount b := by
  rw [ceilCount_eq_countAbove ha, ceilCount_eq_countAbove hb]
  exact monotone_countAbove hab

end Double
end Motion
