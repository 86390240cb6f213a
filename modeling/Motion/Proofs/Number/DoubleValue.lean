/-
# Double precision is rounded arithmetic

A double stands for a number (`value`), or for an infinity, or it is no number.  This module carries
what is known of unpacked floats over to `Float`: sums and differences of doubles are the rounded
sums and differences of their numbers, so double precision has the laws of `Scalar.Rounding`
(`rounding_double`).

Those laws say nothing about angles.  The directions of doubles come from a function that is not
computed here, so the arithmetic of doubles is also considered with another function in its place
(`withAtan2`).
-/
import Motion.Number.Double
import Motion.Proofs.Number.Carrying
import Motion.Proofs.Number.Rounding

namespace Motion.Double

open Float.Model (UnpackedFloat)
open Float.Model.UnpackedFloat (Sign)

/-! ## 1. The number of a double -/

/-- The sign, the mantissa and the exponent of a double. -/
def unpacked (a : Float) : UnpackedFloat := a.toModel.unpack

/-- The number that a double stands for; that of what is no number is not a real one. -/
noncomputable def value (a : Float) : EReal := unpackedValue (unpacked a)

theorem rounded_unpacked (a : Float) : Rounded (unpacked a) := (rounded_unpack _).1

variable {a b : Float}

theorem isFinite_iff_value : a.isFinite ↔ ∃ x : ℝ, value a = x :=
  isFinite_iff_unpackedValue (unpacked a)

theorem lt_iff_value (ha : a.isNaN = false) (hb : b.isNaN = false) : a < b ↔ value a < value b :=
  decide_eq_true_iff.trans (lt_iff_unpackedValue (rounded_unpacked a) (rounded_unpacked b) ha hb)

theorem le_iff_value (ha : a.isNaN = false) (hb : b.isNaN = false) : a ≤ b ↔ value a ≤ value b :=
  decide_eq_true_iff.trans (le_iff_unpackedValue (rounded_unpacked a) (rounded_unpacked b) ha hb)

theorem beq_iff_value (ha : a.isNaN = false) (hb : b.isNaN = false) : a == b ↔ value a = value b :=
  beq_iff_unpackedValue (rounded_unpacked a) (rounded_unpacked b) ha hb

theorem isNaN_of_isFinite (ha : a.isFinite) : a.isNaN = false := by
  change (unpacked a).isFinite = true at ha
  change (unpacked a).isNaN = false
  cases h : unpacked a with
  | notANumber =>
    rw [h] at ha
    cases ha
  | _ => rfl

/-- A number is finite or an infinity. -/
theorem finite_or_infinity (ha : a.isNaN = false) :
    a.isFinite ∨ ∃ s, unpacked a = .infinity s := isFinite_or_infinity ha

/-- What is no number is what differs from itself. -/
theorem isNaN_eq_not_beq (a : Float) : a.isNaN = !(a == a) := by
  rw [Bool.eq_iff_iff, Float.isNaN_eq_decide_eq_nan]
  simp

theorem unpacked_zero : unpacked Scalar.zero = .zero .positive := rfl

theorem value_of_unpacked_zero {s : Sign} (ha : unpacked a = .zero s) : value a = 0 := by
  rw [value, ha]
  rfl

/-! ## 2. Rounding -/

theorem round_value (ha : a.isNaN = false) : round (value a) = value a :=
  round_unpackedValue (rounded_unpack _).1 (rounded_unpack _).2 ha

theorem value_add (ha : a.isNaN = false) (hb : b.isNaN = false) (h : a.isFinite ∨ b.isFinite) :
    (a + b).isNaN = false ∧ value (a + b) = round (value a + value b) :=
  packed_add_spec (rounded_unpacked a) (rounded_unpacked b) ha hb h

theorem value_sub (ha : a.isNaN = false) (hb : b.isNaN = false) (h : a.isFinite ∨ b.isFinite) :
    (a - b).isNaN = false ∧ value (a - b) = round (value a - value b) := by
  have hneg : (unpacked b).neg.isNaN = (unpacked b).isNaN ∧
      (unpacked b).neg.isFinite = (unpacked b).isFinite := by
    cases unpacked b <;> exact ⟨rfl, rfl⟩
  have hspec := packed_add_spec (rounded_unpacked a) (rounded_neg (rounded_unpacked b)) ha
    (hneg.1.trans hb) (by rw [hneg.2]; exact h)
  rw [unpackedValue_neg (v := unpacked b) hb, ← sub_eq_add_neg (unpacked a)] at hspec
  exact hspec

/-- Double precision with another function for the angle of a direction. -/
@[reducible] def withAtan2 (angle : Float → Float → Float) : Scalar Float :=
  { (inferInstance : Scalar Float) with atan2 := angle }

/-- The arithmetic that programs run in is the one with the function of the platform. -/
theorem withAtan2_atan2 : withAtan2 Float.atan2 = instScalarFloat := rfl

theorem isNaN_withAtan2 (angle : Float → Float → Float) (a : Float) :
    @Scalar.isNaN Float (withAtan2 angle) a = a.isNaN := (isNaN_eq_not_beq a).symm

/-- **Double precision is rounded arithmetic**, whatever its angles are. -/
theorem rounding_double (angle : Float → Float → Float) :
    @Scalar.Rounding Float (withAtan2 angle) value round := by
  refine @Scalar.Rounding.mk Float (withAtan2 angle) value round monotone_round ?round_value
    ?lt_iff ?le_iff ?isFinite_iff ?isFinite_zero ?value_zero ?add ?sub
  case isFinite_zero =>
    exact isFinite_iff_value.mpr ⟨0, value_of_unpacked_zero unpacked_zero⟩
  case value_zero => exact value_of_unpacked_zero unpacked_zero
  all_goals simp only [isNaN_withAtan2]
  case round_value => exact round_value
  case lt_iff => exact fun ha hb => decide_eq_true_iff.trans (lt_iff_value ha hb)
  case le_iff => exact fun ha hb => decide_eq_true_iff.trans (le_iff_value ha hb)
  case isFinite_iff =>
    exact ⟨fun ha => ⟨isNaN_of_isFinite ha, isFinite_iff_value.mp ha⟩,
      fun ha => isFinite_iff_value.mpr ha.2⟩
  case add => exact value_add
  case sub => exact value_sub

/-! ## 3. Zeros -/

theorem isFinite_zero : Scalar.isFinite (Scalar.zero : Float) :=
  (rounding_double Float.atan2).isFinite_zero

theorem unpacked_of_value_eq_zero (h : value a = 0) : ∃ s, unpacked a = .zero s := by
  have hzero : value a = (0 : ℝ) := h
  rcases zero_or_finite hzero with ⟨s, hs, -⟩ | ⟨s, m, e, hm, -, hne⟩
  · exact ⟨s, hs⟩
  · have hpos : (0 : ℝ) < m * 2 ^ e := by positivity
    have habs := abs_signed s (m * 2 ^ e)
    rw [← hne, abs_zero, abs_of_pos hpos] at habs
    exact absurd habs.symm hpos.ne'

/-- A finite double less itself is a zero. -/
theorem value_sub_self (ha : a.isFinite) : value (a - a) = 0 := by
  have hnan := isNaN_of_isFinite ha
  obtain ⟨x, hx⟩ := isFinite_iff_value.mp ha
  rw [(value_sub hnan hnan (Or.inl ha)).2, hx, ← EReal.coe_sub, sub_self, EReal.coe_zero,
    (rounding_double Float.atan2).round_zero]

theorem sub_self_beq_zero (ha : a.isFinite) : a - a == 0 := by
  have hnan := isNaN_of_isFinite ha
  have hzero : value 0 = 0 := value_of_unpacked_zero unpacked_zero
  rw [beq_iff_value (value_sub hnan hnan (Or.inl ha)).1 rfl, value_sub_self ha, hzero]

/-- A finite multiple of zero is a zero. -/
theorem mul_zero_beq_zero (ha : a.isFinite) : a * 0 == 0 := by
  have hmul : a * 0 = .ofModel (.pack (.mul .binary64 (unpacked a) (.zero .positive))) := rfl
  change (unpacked a).isFinite = true at ha
  rw [hmul]
  cases hu : unpacked a with
  | infinity =>
    rw [hu] at ha
    cases ha
  | notANumber =>
    rw [hu] at ha
    cases ha
  | zero s => cases s <;> rfl
  | finite s m e h =>
    have hzero : UnpackedFloat.mul .binary64 (.finite s m e h) (.zero .positive) =
        .zero (s * .positive) := rfl
    rw [hzero]
    cases s <;> rfl

/-- The square of either zero is the zero without a sign. -/
theorem mul_self_of_value_eq_zero (h : value a = 0) : a * a = Scalar.zero := by
  obtain ⟨s, hs⟩ := unpacked_of_value_eq_zero h
  have hmul : a * a = .ofModel (.pack (.mul .binary64 (unpacked a) (unpacked a))) := rfl
  rw [hmul, hs]
  cases s <;> rfl

end Motion.Double
