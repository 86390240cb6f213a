/-
# Angles on the axes

Where a direction lies on an axis, its angle depends on the signs of zeros.

| y      | x                | the angle of the direction |
|--------|------------------|----------------------------|
| a zero | not negative     | that zero                  |
| a zero | negative or `-0` | a half turn, signed as `y` |
| other  | a zero           | the same for both zeros    |

`AxisAngles` says that a function has these values, which are those of the C library, and that every
angle is finite.  `axisAngle` is such a function: on the axes it gives the angles of the C library,
elsewhere it only says on which side of the X axis a direction is.  So the laws of angles can be
met, those on the axes (`axisAngles_axisAngle`) and those of `Scalar.Angles` (`angles_axisAngle`).

In the same way `quarterSine` and `quarterCosine` are a sine and a cosine where a direction lies on
an axis, down to the last bit, and meet the law of `Scalar.Circle` (`circle_quarter`).
-/
import Motion.Proofs.Number.Products

namespace Motion.Double

open Float.Model (UnpackedFloat)
open Float.Model.UnpackedFloat (Sign)

/-! ## 1. Parts of a turn -/

/-- The sign bit is set. -/
def isNegative (a : Float) : Bool :=
  match unpacked a with
  | .infinity .negative => true
  | .zero .negative => true
  | .finite .negative .. => true
  | _ => false

/-- A half turn, forth or back. -/
def halfTurn (negative : Bool) : Float :=
  if negative then Float.ofBits 0xC00921FB54442D18 else Float.ofBits 0x400921FB54442D18

/-- A quarter turn, forth or back. -/
def quarterTurn (negative : Bool) : Float :=
  if negative then Float.ofBits 0xBFF921FB54442D18 else Float.ofBits 0x3FF921FB54442D18

/-- The number that is a half turn in double precision. -/
noncomputable def pi : ℝ := (7074237752028440 : ℕ) * (2 : ℕ) ^ (-51 : ℤ)

theorem pi_pos : 0 < pi := by
  unfold pi
  positivity

theorem value_halfTurn (negative : Bool) :
    value (halfTurn negative) = (if negative then -pi else pi : ℝ) := by
  cases negative <;> rfl

theorem value_quarterTurn (negative : Bool) :
    value (quarterTurn negative) = (if negative then -(pi / 2) else pi / 2 : ℝ) := by
  have hhalf : pi / 2 = (7074237752028440 : ℕ) * 2 ^ (-52 : ℤ) := by
    unfold pi
    norm_num
  rw [hhalf]
  cases negative <;> rfl

theorem value_turn : value Scalar.turn = (2 * pi : ℝ) := by
  have hdouble : 2 * pi = (7074237752028440 : ℕ) * 2 ^ (-50 : ℤ) := by
    unfold pi
    norm_num
  rw [hdouble]
  rfl

/-! ## 2. The values on the axes -/

/-- The angles of directions along an axis are those of the C library. -/
structure AxisAngles (angle : Float → Float → Float) : Prop where
  isFinite {y x : Float} : y.isNaN = false → x.isNaN = false → (angle y x).isFinite
  level {y x : Float} : y == 0 → x.isNaN = false →
    angle y x = if isNegative x then halfTurn (isNegative y) else y
  plumb {y : Float} : (y == 0) = false → angle y 0 = angle y (-0)

/-- The angle of a direction along an axis; elsewhere a quarter turn, to its side of the X axis. -/
def axisAngle (y x : Float) : Float :=
  if y == 0 then if isNegative x then halfTurn (isNegative y) else y
  else quarterTurn (isNegative y)

/-- An angle that `axisAngle` gives is at most a half turn. -/
theorem value_axisAngle (y x : Float) : ∃ θ : ℝ, value (axisAngle y x) = θ ∧ -pi ≤ θ ∧ θ ≤ pi := by
  have hpi := pi_pos
  unfold axisAngle
  split_ifs with hy
  · refine ⟨_, value_halfTurn _, ?_⟩
    split_ifs <;> constructor <;> linarith
  · have hzero : value y = 0 := by
      rcases (Float.beq_iff_ne_nan_and_eq.mp hy).2.2 with rfl | ⟨rfl, -⟩ | ⟨rfl, -⟩ <;> rfl
    exact ⟨0, hzero, by linarith, hpi.le⟩
  · refine ⟨_, value_quarterTurn _, ?_⟩
    split_ifs <;> constructor <;> linarith

theorem axisAngles_axisAngle : AxisAngles axisAngle where
  isFinite _ _ := by
    obtain ⟨θ, hθ, -⟩ := value_axisAngle _ _
    exact isFinite_iff_value.mpr ⟨θ, hθ⟩
  level hy _ := by rw [axisAngle, if_pos hy]
  plumb hy := by simp [axisAngle, hy]

theorem angles_axisAngle : @Scalar.Angles Float (withAtan2 axisAngle) value pi := by
  refine @Scalar.Angles.mk Float (withAtan2 axisAngle) value pi ?isFinite_turn value_turn
    ?isNaN_atan2 ?neg_le_atan2 ?atan2_le
  case isFinite_turn => exact isFinite_iff_value.mpr ⟨_, value_turn⟩
  all_goals
    intro y x _ _
    obtain ⟨θ, hθ, hlow, hhigh⟩ := value_axisAngle y x
  case isNaN_atan2 =>
    rw [isNaN_withAtan2]
    exact isNaN_of_isFinite (isFinite_iff_value.mpr ⟨θ, hθ⟩)
  case neg_le_atan2 => exact hθ ▸ EReal.coe_le_coe_iff.mpr hlow
  case atan2_le => exact hθ ▸ EReal.coe_le_coe_iff.mpr hhigh

/-! ## 3. Directions along the axes -/

/-- The cosine of no turn, a quarter turn and a half turn, as the C library gives it; of no other
angle. -/
def quarterCosine (angle : Float) : Float :=
  if angle == quarterTurn false then Float.ofBits 0x3C91A62633145C07
  else if angle == halfTurn false then -1
  else 1

/-- The sine of no turn, a quarter turn and a half turn, as the C library gives it; of no other
angle. -/
def quarterSine (angle : Float) : Float :=
  if angle == quarterTurn false then 1
  else if angle == halfTurn false then Float.ofBits 0x3CA1A62633145C07
  else 0

theorem value_one : value 1 = 1 := by
  have hunpacked : value 1 = ((2 ^ 52 : ℕ) * (2 : ℕ) ^ (-52 : ℤ) : ℝ) := rfl
  rw [hunpacked]
  norm_num

theorem value_neg_one : value (-1) = -1 := by rw [(value_neg rfl).2, value_one]

/-- What compares as at most one either way is so. -/
theorem value_between_of_le {a : Float} (hn : a.isNaN = false) (hlow : (-1 : Float) ≤ a)
    (hhigh : a ≤ 1) : -1 ≤ value a ∧ value a ≤ 1 := by
  rw [le_iff_value rfl hn, value_neg_one] at hlow
  rw [le_iff_value hn rfl, value_one] at hhigh
  exact ⟨hlow, hhigh⟩

theorem circle_quarter : @Scalar.Circle Float (withCircle quarterSine quarterCosine) value := by
  refine @Scalar.Circle.mk Float (withCircle quarterSine quarterCosine) value ?sin ?cos
  all_goals
    intro θ _
    rw [isNaN_withCircle]
  case sin =>
    change (quarterSine θ).isNaN = false ∧ -1 ≤ value (quarterSine θ) ∧ value (quarterSine θ) ≤ 1
    unfold quarterSine
    split_ifs
    all_goals exact ⟨rfl, value_between_of_le rfl (by decide +kernel) (by decide +kernel)⟩
  case cos =>
    change (quarterCosine θ).isNaN = false ∧ -1 ≤ value (quarterCosine θ) ∧
      value (quarterCosine θ) ≤ 1
    unfold quarterCosine
    split_ifs
    all_goals exact ⟨rfl, value_between_of_le rfl (by decide +kernel) (by decide +kernel)⟩

end Motion.Double
