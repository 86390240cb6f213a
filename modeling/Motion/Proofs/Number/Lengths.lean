/-
# Quotients of lengths

A length, or the size of an angle, is a double that is a number and has no sign before it: the zero
without one, a positive number, or the infinity (`IsLength`).  A positive length may be divided by
every length, unless both are infinite, and the quotient is the rounded one also where the divisor
is zero or one of the lengths is infinite (`value_div_length`).  So quotients of lengths grow with
what is divided and shrink as the divisor grows.

The angle of a cosine is not computed here; as with directions, another function can be put in the
place of that of the platform (`withArccos`).  `Arccosines` says of it what is known of every
arccosine: angles are at most half a turn, without a sign, and the greater the cosine the less the
angle.  `steppedArccos` is such a function, with the angles of the C library at three cosines.
-/
import Motion.Proofs.Number.Angle
import Motion.Proofs.Number.Whole

namespace Motion.Double

open Float.Model (UnpackedFloat)
open Float.Model.UnpackedFloat

variable {a b : Float}

/-! ## 1. Lengths -/

/-- The double is a number and has no sign before it. -/
structure IsLength (a : Float) : Prop where
  isNaN : a.isNaN = false
  isNegative : isNegative a = false

theorem IsLength.cases (h : IsLength a) :
    unpacked a = .infinity .positive ∨ unpacked a = .zero .positive ∨
      ∃ m e hm, unpacked a = .finite .positive m e hm := by
  obtain ⟨hnan, hsign⟩ := h
  have hnumber : (unpacked a).isNaN = false := hnan
  rw [Double.isNegative] at hsign
  cases hu : unpacked a with
  | notANumber =>
    rw [hu] at hnumber
    cases hnumber
  | infinity s =>
    cases s with
    | negative => simp [hu] at hsign
    | positive => exact Or.inl rfl
  | zero s =>
    cases s with
    | negative => simp [hu] at hsign
    | positive => exact Or.inr (Or.inl rfl)
  | finite s m e hm =>
    cases s with
    | negative => simp [hu] at hsign
    | positive => exact Or.inr (Or.inr ⟨m, e, hm, rfl⟩)

theorem IsLength.nonneg (h : IsLength a) : 0 ≤ value a := by
  rw [value]
  rcases h.cases with hu | hu | ⟨m, e, hm, hu⟩
  · rw [hu]
    exact le_top
  · rw [hu]
    exact le_rfl
  · rw [hu]
    have hpos : (0 : ℝ) ≤ m * 2 ^ e := by positivity
    exact EReal.coe_nonneg.mpr hpos

theorem IsLength.unpacked_eq_zero (h : IsLength a) (hzero : value a = 0) :
    unpacked a = .zero .positive := by
  obtain ⟨s, hs⟩ := unpacked_of_value_eq_zero hzero
  cases s with
  | positive => exact hs
  | negative =>
    have hsign := h.isNegative
    simp [Double.isNegative, hs] at hsign

/-- A positive number is a length. -/
theorem isLength_of_pos (hnan : a.isNaN = false) (hpos : 0 < value a) : IsLength a := by
  refine ⟨hnan, ?_⟩
  rw [value] at hpos
  rw [isNegative]
  cases hu : unpacked a with
  | notANumber => rfl
  | infinity s =>
    cases s with
    | positive => rfl
    | negative =>
      rw [hu] at hpos
      exact absurd hpos not_lt_bot
  | zero s =>
    rw [hu] at hpos
    exact absurd hpos (lt_irrefl 0)
  | finite s m e hm =>
    cases s with
    | positive => rfl
    | negative =>
      rw [hu] at hpos
      have hneg : -((m : ℝ) * 2 ^ e) ≤ 0 := neg_nonpos.mpr (by positivity)
      exact absurd hpos (EReal.coe_nonpos.mpr hneg).not_gt

theorem value_scalar_two : value Scalar.two = (2 : ℝ) := by
  have hvalue : value Scalar.two = ((2 : ℕ) : ℝ) := value_ofNat (by norm_num)
  rwa [Nat.cast_ofNat] at hvalue

/-- Twice a length is a length, rounded if it is out of range. -/
theorem isLength_double {x : ℝ} (h : IsLength a) (hx : value a = x) :
    IsLength (Scalar.two * a) ∧ value (Scalar.two * a) = round (2 * x : ℝ) := by
  have htwo := value_scalar_two
  obtain ⟨hnan, hvalue⟩ := value_mul (isFinite_of_value htwo) (isFinite_of_value hx)
  rw [htwo, hx, ← EReal.coe_mul] at hvalue
  refine ⟨?_, hvalue⟩
  rcases h.nonneg.eq_or_lt with hzero | hpos
  · -- twice the zero without a sign is the same zero
    have hu := h.unpacked_eq_zero hzero.symm
    have hmul : Scalar.two * a =
        .ofModel (.pack (mul .binary64 (unpacked Scalar.two) (unpacked a))) := rfl
    rw [hmul, hu]
    exact ⟨rfl, rfl⟩
  · refine isLength_of_pos hnan ?_
    have hx' : 0 < x := by rwa [hx, EReal.coe_pos] at hpos
    have htwice : x ≤ 2 * x := by linarith
    calc 0 < value a := hpos
      _ = round x := by rw [← hx, round_value h.isNaN]
      _ ≤ round (2 * x : ℝ) := monotone_round (EReal.coe_le_coe_iff.mpr htwice)
      _ = value (Scalar.two * a) := hvalue.symm

/-! ## 2. Quotients -/

/-- The quotient of two sizes that are not both zero and not both infinite. -/
noncomputable def ratio (x y : EReal) : EReal := (x.toENNReal / y.toENNReal : ENNReal)

theorem ratio_coe {x y : ℝ} (hx : 0 ≤ x) (hy : 0 < y) : ratio x y = (x / y : ℝ) := by
  have hnonneg : 0 ≤ x / y := div_nonneg hx hy.le
  rw [ratio, EReal.real_coe_toENNReal, EReal.real_coe_toENNReal, ← ENNReal.ofReal_div_of_pos hy,
    EReal.coe_ennreal_ofReal, max_eq_left hnonneg]

theorem ratio_zero {x : EReal} (hx : 0 < x) : ratio x 0 = ⊤ := by
  have hne : x.toENNReal ≠ 0 := (EReal.toENNReal_pos_iff.mpr hx).ne'
  rw [ratio, EReal.toENNReal_zero, ENNReal.div_zero hne, EReal.coe_ennreal_top]

theorem ratio_top {x : EReal} : ratio x ⊤ = 0 := by
  rw [ratio, EReal.toENNReal_top, ENNReal.div_top, EReal.coe_ennreal_zero]

theorem top_ratio (y : ℝ) : ratio ⊤ y = ⊤ := by
  rw [ratio, EReal.toENNReal_top, EReal.real_coe_toENNReal,
    ENNReal.top_div_of_ne_top ENNReal.ofReal_ne_top, EReal.coe_ennreal_top]

theorem ratio_le_ratio_left {x x' : EReal} (h : x ≤ x') (y : EReal) : ratio x y ≤ ratio x' y :=
  EReal.coe_ennreal_le_coe_ennreal_iff.mpr
    (ENNReal.div_le_div_right (EReal.toENNReal_le_toENNReal h) _)

theorem ratio_le_ratio_right {y y' : EReal} (h : y ≤ y') (x : EReal) : ratio x y' ≤ ratio x y :=
  EReal.coe_ennreal_le_coe_ennreal_iff.mpr
    (ENNReal.div_le_div_left (EReal.toENNReal_le_toENNReal h) _)

theorem ratio_nonneg (x y : EReal) : 0 ≤ ratio x y := EReal.coe_ennreal_nonneg _

theorem ratio_le_one {x y : EReal} (h : x ≤ y) : ratio x y ≤ 1 := by
  have hle : x.toENNReal / y.toENNReal ≤ 1 := by
    refine ENNReal.div_le_of_le_mul ?_
    rw [one_mul]
    exact EReal.toENNReal_le_toENNReal h
  rw [ratio, ← EReal.coe_ennreal_one]
  exact EReal.coe_ennreal_le_coe_ennreal_iff.mpr hle

/-- **The quotient of two lengths** is the rounded one, except for zero over zero and infinity over
infinity. -/
theorem value_div_length (ha : IsLength a) (hpos : 0 < value a) (hb : IsLength b)
    (h : a.isFinite ∨ b.isFinite) :
    (a / b).isNaN = false ∧ value (a / b) = round (ratio (value a) (value b)) := by
  have hdiv : a / b = .ofModel (.pack (div .binary64 (unpacked a) (unpacked b))) := rfl
  rcases hb.cases with hv | hv | ⟨m', e', hm', hv⟩
  · -- infinite: what is divided is finite and positive
    have htop : value b = ⊤ := congrArg unpackedValue hv
    rcases ha.cases with hu | hu | ⟨m, e, hm, hu⟩
    · have hinfinite : a.isFinite = false ∧ b.isFinite = false :=
        ⟨congrArg UnpackedFloat.isFinite hu, congrArg UnpackedFloat.isFinite hv⟩
      simp [hinfinite] at h
    · exact absurd hpos (value_of_unpacked_zero hu).not_gt
    · have hzero : a / b = Scalar.zero := by rw [hdiv, hu, hv]; rfl
      rw [htop, ratio_top, hzero]
      exact ⟨rfl, (round_of_small le_rfl (by positivity)).symm⟩
  · -- the zero without a sign
    have hzero : value b = 0 := value_of_unpacked_zero hv
    have hinfinity : a / b = .ofModel (.pack (.infinity .positive)) := by
      rcases ha.cases with hu | hu | ⟨m, e, hm, hu⟩
      · rw [hdiv, hu, hv]; rfl
      · exact absurd hpos (value_of_unpacked_zero hu).not_gt
      · rw [hdiv, hu, hv]; rfl
    rw [hzero, ratio_zero hpos, hinfinity]
    exact ⟨rfl, rfl⟩
  · -- a positive number
    have hy : value b = (m' * 2 ^ e' : ℝ) := congrArg unpackedValue hv
    have hy' : (0 : ℝ) < m' * 2 ^ e' := by positivity
    rcases ha.cases with hu | hu | ⟨m, e, hm, hu⟩
    · have htop : value a = ⊤ := congrArg unpackedValue hu
      have hinfinity : a / b = .ofModel (.pack (.infinity .positive)) := by rw [hdiv, hu, hv]; rfl
      rw [htop, hy, top_ratio, hinfinity]
      exact ⟨rfl, rfl⟩
    · exact absurd hpos (value_of_unpacked_zero hu).not_gt
    · have hx : value a = (m * 2 ^ e : ℝ) := congrArg unpackedValue hu
      rw [hx, hy, ratio_coe (by positivity) hy']
      exact value_div hx hy hy'.ne'

theorem unpacked_of_isNaN (ha : a.isNaN) : unpacked a = .notANumber := by
  have hnan : (unpacked a).isNaN = true := ha
  cases hu : unpacked a with
  | notANumber => rfl
  | _ =>
    rw [hu] at hnan
    cases hnan

/-- What is no number makes every quotient the same. -/
theorem nan_div (ha : a.isNaN) (b b' : Float) : a / b = a / b' := by
  have hnan (c : Float) : a / c = .ofModel (.pack .notANumber) := by
    have hdiv : a / c = .ofModel (.pack (div .binary64 (unpacked a) (unpacked c))) := rfl
    rw [hdiv, unpacked_of_isNaN ha]
    rfl
  rw [hnan b, hnan b']

theorem div_nan (hb : b.isNaN) (a a' : Float) : a / b = a' / b := by
  have hnan (c : Float) : c / b = .ofModel (.pack .notANumber) := by
    have hdiv : c / b = .ofModel (.pack (div .binary64 (unpacked c) (unpacked b))) := rfl
    rw [hdiv, unpacked_of_isNaN hb]
    cases unpacked c <;> rfl
  rw [hnan a, hnan a']

/-! ## 3. Arccosines -/

/-- Double precision with another function for the angle of a cosine. -/
@[reducible] def withArccos (arccos : Float → Float) : Scalar Float :=
  { (inferInstance : Scalar Float) with acos := arccos }

/-- The arithmetic that programs run in is the one with the function of the platform. -/
theorem withArccos_acos : withArccos Float.acos = instScalarFloat := rfl

/-- The angles of cosines: from zero, without a sign, to half a turn, and the greater the cosine the
less the angle. -/
structure Arccosines (arccos : Float → Float) : Prop where
  isNegative {x : Float} : -1 ≤ x → x ≤ 1 → isNegative (arccos x) = false
  le_halfTurn {x : Float} : -1 ≤ x → x ≤ 1 → arccos x ≤ halfTurn false
  antitone {x y : Float} : -1 ≤ x → x ≤ y → y ≤ 1 → arccos y ≤ arccos x

/-- The angles of the cosines 1, 0.75 and 0.5 as the C library gives them; of no other cosine. -/
def steppedArccos (x : Float) : Float :=
  if 1 ≤ x then 0
  else if 0.75 ≤ x then Float.ofBits 0x3FE720A392C1D955
  else if 0.5 ≤ x then Float.ofBits 0x3FF0C152382D7366
  else halfTurn false

theorem arccosines_steppedArccos : Arccosines steppedArccos where
  isNegative _ _ := by
    unfold steppedArccos
    split_ifs <;> rfl
  le_halfTurn _ _ := by
    unfold steppedArccos
    split_ifs <;> decide +kernel
  antitone {x y} _ hxy _ := by
    have htrans {c : Float} (hc : c ≤ x) : c ≤ y := le_trans_double hc hxy
    unfold steppedArccos
    by_cases h₁ : 1 ≤ x
    · rw [if_pos h₁, if_pos (htrans h₁)]
      decide +kernel
    rw [if_neg h₁]
    by_cases h₂ : 0.75 ≤ x
    · rw [if_pos h₂, if_pos (htrans h₂)]
      split_ifs <;> decide +kernel
    rw [if_neg h₂]
    by_cases h₃ : 0.5 ≤ x
    · rw [if_pos h₃, if_pos (htrans h₃)]
      split_ifs <;> decide +kernel
    rw [if_neg h₃]
    split_ifs <;> decide +kernel

variable {arccos : Float → Float} {c c' : Float}

theorem between_arccos (h : Arccosines arccos) (hc : -1 ≤ c ∧ c ≤ 1) :
    IsLength (arccos c) ∧ Between (arccos c) 0 pi := by
  have hle := h.le_halfTurn hc.1 hc.2
  obtain ⟨hnan, hhalf⟩ := isNaN_of_le hle
  have hlength : IsLength (arccos c) := ⟨hnan, h.isNegative hc.1 hc.2⟩
  have hnonneg := hlength.nonneg
  rw [le_iff_value hnan hhalf, value_halfTurn, if_neg Bool.false_ne_true] at hle
  exact ⟨hlength, between_of_le hnonneg hle⟩

/-- Twice the angle of a cosine is a finite length, -/
theorem isLength_two_arccos (h : Arccosines arccos) (hc : -1 ≤ c ∧ c ≤ 1) :
    IsLength (Scalar.two * arccos c) ∧ (Scalar.two * arccos c).isFinite := by
  obtain ⟨hlength, x, hx, hnonneg, hpi⟩ := between_arccos h hc
  obtain ⟨hdouble, hvalue⟩ := isLength_double hlength hx
  have hbound : pi ≤ 2 ^ (2 : ℤ) := by
    unfold pi
    norm_num
  have hdigits : (2 : ℝ) ^ (3 : ℤ) = 2 * 2 ^ (2 : ℤ) := by norm_num
  obtain ⟨y, hy, -⟩ := between_of_round hvalue isBound_zero
    (isBound_zpow (v := 3) (by norm_num) (by norm_num)) ⟨by linarith, by linarith⟩
  exact ⟨hdouble, isFinite_of_value hy⟩

/-- and the greater the cosine the less it is. -/
theorem two_arccos_le (h : Arccosines arccos) (hc : -1 ≤ c ∧ c ≤ 1) (hc' : -1 ≤ c' ∧ c' ≤ 1)
    (hle : c ≤ c') : value (Scalar.two * arccos c') ≤ value (Scalar.two * arccos c) := by
  obtain ⟨hlength, x, hx, -⟩ := between_arccos h hc
  obtain ⟨hlength', x', hx', -⟩ := between_arccos h hc'
  have hless := h.antitone hc.1 hle hc'.2
  rw [le_iff_value hlength'.isNaN hlength.isNaN, hx, hx', EReal.coe_le_coe_iff] at hless
  rw [(isLength_double hlength hx).2, (isLength_double hlength' hx').2]
  exact monotone_round (EReal.coe_le_coe_iff.mpr (by linarith))

end Motion.Double
