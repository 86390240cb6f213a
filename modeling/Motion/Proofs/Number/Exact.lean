/-
# Exact arithmetic

The real numbers, with the functions that geometry needs: the arithmetic that double precision
approximates.  Nothing is rounded and every value is finite, so the laws of `Scalar.Rounding` hold
with a rounding that changes nothing, and the angle of a direction is a number above -π and at most
π.

The real numbers have an arithmetic already, so this one is no instance: what is computed exactly
names it (`Exact.scalar`).
-/
import Mathlib.Analysis.SpecialFunctions.Complex.Arg
import Mathlib.Analysis.SpecialFunctions.Trigonometric.Inverse
import Motion.Proofs.Number.Rounding

namespace Motion.Exact

/-- The real numbers as coordinates.  The greatest finite value is that of doubles. -/
@[reducible] noncomputable def scalar : Scalar ℝ where
  toAdd := inferInstance
  toSub := inferInstance
  toMul := inferInstance
  toDiv := inferInstance
  toNeg := inferInstance
  ofNat n := n
  ofDecimal negative digits exponent := (if negative then -1 else 1) * digits * (10 : ℕ) ^ exponent
  lt x y := decide (x < y)
  le x y := decide (x ≤ y)
  eq x y := decide (x = y)
  isFinite _ := true
  abs x := |x|
  sqrt := Real.sqrt
  hypot x y := √(x ^ 2 + y ^ 2)
  sin := Real.sin
  cos := Real.cos
  acos := Real.arccos
  atan2 y x := Complex.arg ⟨x, y⟩
  turn := (2 : ℕ) * Real.pi
  largest := (2 : ℕ) ^ 1024 - (2 : ℕ) ^ 971
  truncate x := min ⌊x⌋₊ (UInt32.size - 1)

theorem isNaN_eq_false (x : ℝ) : @Scalar.isNaN ℝ scalar x = false := by
  simp [Scalar.isNaN, Scalar.eq]

/-- **Exact arithmetic rounds nothing.** -/
theorem rounding_exact : @Scalar.Rounding ℝ scalar Real.toEReal id := by
  refine @Scalar.Rounding.mk ℝ scalar Real.toEReal id monotone_id ?round_value ?lt_iff ?le_iff
    ?isFinite_iff ?isFinite_zero ?value_zero ?add ?sub
  case round_value => exact fun _ => rfl
  case lt_iff => exact fun _ _ => decide_eq_true_iff.trans EReal.coe_lt_coe_iff.symm
  case le_iff => exact fun _ _ => decide_eq_true_iff.trans EReal.coe_le_coe_iff.symm
  case isFinite_iff => exact fun {x} => iff_of_true rfl ⟨isNaN_eq_false x, x, rfl⟩
  case isFinite_zero => rfl
  case value_zero => exact congrArg Real.toEReal Nat.cast_zero
  case add => exact fun {x y} _ _ _ => ⟨isNaN_eq_false _, EReal.coe_add x y⟩
  case sub => exact fun {x y} _ _ _ => ⟨isNaN_eq_false _, EReal.coe_sub x y⟩

theorem angles_exact : @Scalar.Angles ℝ scalar Real.toEReal Real.pi := by
  refine @Scalar.Angles.mk ℝ scalar Real.toEReal Real.pi ?isFinite_turn ?value_turn ?isNaN_atan2
    ?neg_le_atan2 ?atan2_le
  case isFinite_turn => rfl
  case value_turn => rfl
  case isNaN_atan2 => exact fun _ _ => isNaN_eq_false _
  case neg_le_atan2 => exact fun _ _ => EReal.coe_le_coe_iff.mpr (Complex.neg_pi_lt_arg _).le
  case atan2_le => exact fun _ _ => EReal.coe_le_coe_iff.mpr (Complex.arg_le_pi _)

/-! ## Polar coordinates -/

theorem hypot_eq_norm (x y : ℝ) : @Scalar.hypot ℝ scalar x y = ‖(⟨x, y⟩ : ℂ)‖ :=
  (Complex.norm_eq_sqrt_sq_add_sq ⟨x, y⟩).symm

/-- The hypotenuse in the direction of a position leads to the position. -/
theorem hypot_mul_cos_atan2 (x y : ℝ) :
    @Scalar.hypot ℝ scalar x y * Real.cos (@Scalar.atan2 ℝ scalar y x) = x := by
  rw [hypot_eq_norm]
  exact Complex.norm_mul_cos_arg ⟨x, y⟩

theorem hypot_mul_sin_atan2 (x y : ℝ) :
    @Scalar.hypot ℝ scalar x y * Real.sin (@Scalar.atan2 ℝ scalar y x) = y := by
  rw [hypot_eq_norm]
  exact Complex.norm_mul_sin_arg ⟨x, y⟩

end Motion.Exact
