/-
# Laws of rounded arithmetic

The geometry of arcs asks little of its arithmetic: that each value stands for a number, that values
compare as their numbers do, and that a sum or a difference is the rounded one.  How it is rounded
does not matter, as long as rounding keeps the order and leaves alone what needs no rounding
(`Scalar.Rounding`).  Exact arithmetic is the case in which rounding changes nothing
(`Motion.Proofs.Number.Exact`), double precision is another one
(`Motion.Proofs.Number.DoubleValue`).

An infinity is the number `⊤` or `⊥` of the extended reals.  The laws of sums and differences leave
out two infinite operands, whose sum may be no number.

Of the angle of a direction no more is asked than that it is one, at most half a turn either way
(`Scalar.Angles`).  Both ends can occur.

Some of the geometry needs more: products that are rounded in the same way (`Scalar.Products`),
sines and cosines that are at most one (`Scalar.Circle`), and a greatest finite value
(`Scalar.Ranged`).
The last is a law of doubles and not of exact arithmetic.
-/
import Mathlib.Data.EReal.Operations
import Motion.Number.Scalar

namespace Motion

/-- Sums and differences are rounded, by a rounding that keeps the order and the values. -/
structure Scalar.Rounding {α : Type} [Scalar α] (value : α → EReal) (round : EReal → EReal) :
    Prop where
  monotone : Monotone round
  round_value {a : α} : isNaN a = false → round (value a) = value a
  lt_iff {a b : α} : isNaN a = false → isNaN b = false → (lt a b ↔ value a < value b)
  le_iff {a b : α} : isNaN a = false → isNaN b = false → (le a b ↔ value a ≤ value b)
  isFinite_iff {a : α} : isFinite a ↔ isNaN a = false ∧ ∃ x : ℝ, value a = x
  isFinite_zero : isFinite (zero : α)
  value_zero : value zero = 0
  add {a b : α} : isNaN a = false → isNaN b = false → isFinite a ∨ isFinite b →
    isNaN (a + b) = false ∧ value (a + b) = round (value a + value b)
  sub {a b : α} : isNaN a = false → isNaN b = false → isFinite a ∨ isFinite b →
    isNaN (a - b) = false ∧ value (a - b) = round (value a - value b)

/-- A full turn is twice `τ`, and directions are at most `τ` away from angle zero. -/
structure Scalar.Angles {α : Type} [Scalar α] (value : α → EReal) (τ : ℝ) : Prop where
  isFinite_turn : isFinite (turn : α)
  value_turn : value turn = (2 * τ : ℝ)
  isNaN_atan2 {y x : α} : isNaN y = false → isNaN x = false → isNaN (atan2 y x) = false
  neg_le_atan2 {y x : α} : isNaN y = false → isNaN x = false → (-τ : ℝ) ≤ value (atan2 y x)
  atan2_le {y x : α} : isNaN y = false → isNaN x = false → value (atan2 y x) ≤ τ

/-- Products are rounded as sums are, and a sign is put before a value without rounding. -/
structure Scalar.Products {α : Type} [Scalar α] (value : α → EReal) (round : EReal → EReal) :
    Prop where
  neg {a : α} : isNaN a = false → isNaN (-a) = false ∧ value (-a) = -value a
  mul {a b : α} : isFinite a → isFinite b →
    isNaN (a * b) = false ∧ value (a * b) = round (value a * value b)

/-- The sine and the cosine of an angle are at most one either way. -/
structure Scalar.Circle {α : Type} [Scalar α] (value : α → EReal) : Prop where
  sin {θ : α} : isFinite θ → isNaN (sin θ) = false ∧ -1 ≤ value (sin θ) ∧ value (sin θ) ≤ 1
  cos {θ : α} : isFinite θ → isNaN (cos θ) = false ∧ -1 ≤ value (cos θ) ∧ value (cos θ) ≤ 1

/-- Only numbers are ordered, and the finite ones lie between the greatest and its opposite. -/
structure Scalar.Ranged {α : Type} [Scalar α] (value : α → EReal) : Prop where
  isNaN_of_lt {a b : α} : lt a b → isNaN a = false ∧ isNaN b = false
  isFinite_largest : isFinite (largest : α)
  isFinite_neg_largest : isFinite (-largest : α)
  neg_largest_lt_largest : value (-largest) < value largest
  le_largest {a : α} : isFinite a → value a ≤ value largest
  neg_largest_le {a : α} : isFinite a → value (-largest) ≤ value a

/-- What lies between two real numbers is one. -/
theorem exists_real_of_between {v : EReal} {x y : ℝ} (hlow : x ≤ v) (hhigh : v ≤ y) :
    ∃ z : ℝ, v = z ∧ x ≤ z ∧ z ≤ y := by
  induction v with
  | bot => exact absurd hlow (EReal.bot_lt_coe x).not_ge
  | top => exact absurd hhigh (EReal.coe_lt_top y).not_ge
  | coe z => exact ⟨z, rfl, EReal.coe_le_coe_iff.mp hlow, EReal.coe_le_coe_iff.mp hhigh⟩

namespace Scalar

variable {α : Type} [Scalar α] {value : α → EReal} {round : EReal → EReal} {τ : ℝ} {a b : α}

namespace Rounding

variable (h : Rounding value round)
include h

theorem isNaN_of_isFinite (ha : isFinite a) : isNaN a = false := (h.isFinite_iff.mp ha).1

theorem isNaN_zero : isNaN (zero : α) = false := h.isNaN_of_isFinite h.isFinite_zero

theorem round_zero : round 0 = 0 := by
  rw [← h.value_zero, h.round_value h.isNaN_zero]

/-- A difference from something that is not less is not positive, rounded as it is. -/
theorem sub_le_zero (ha : isNaN a = false) (hb : isFinite b) (hle : value a ≤ value b) :
    le (a - b) zero := by
  obtain ⟨hbn, y, hy⟩ := h.isFinite_iff.mp hb
  obtain ⟨hnan, hvalue⟩ := h.sub ha hbn (Or.inr hb)
  rw [h.le_iff hnan h.isNaN_zero, hvalue, h.value_zero, ← h.round_zero]
  exact h.monotone (EReal.sub_nonpos.mpr hle)

theorem zero_le_sub (ha : isNaN a = false) (hb : isFinite b) (hle : value b ≤ value a) :
    le zero (a - b) := by
  obtain ⟨hbn, y, hy⟩ := h.isFinite_iff.mp hb
  obtain ⟨hnan, hvalue⟩ := h.sub ha hbn (Or.inr hb)
  rw [h.le_iff h.isNaN_zero hnan, hvalue, h.value_zero, ← h.round_zero]
  rw [hy] at hle ⊢
  refine h.monotone ((EReal.sub_nonneg (Or.inr ?_) (Or.inr ?_)).mpr hle)
  · exact EReal.coe_ne_top y
  · exact EReal.coe_ne_bot y

/-- A number between two real ones is finite. -/
theorem isFinite_of_between {x y : ℝ} (ha : isNaN a = false) (hlow : x ≤ value a)
    (hhigh : value a ≤ y) : isFinite a := by
  obtain ⟨z, hz, -⟩ := exists_real_of_between hlow hhigh
  exact h.isFinite_iff.mpr ⟨ha, z, hz⟩

/-- A length, times something that is at most one either way, is at most that length either way. -/
theorem mul_between (hp : Products value round) (ha : isFinite a) (hnonneg : le zero a)
    (hb : isNaN b = false) (hlow : -1 ≤ value b) (hhigh : value b ≤ 1) :
    isNaN (a * b) = false ∧ value (-a) ≤ value (a * b) ∧ value (a * b) ≤ value a := by
  obtain ⟨han, x, hx⟩ := h.isFinite_iff.mp ha
  have hbf : isFinite b := h.isFinite_of_between (x := -1) (y := 1) hb (by simpa using hlow) hhigh
  obtain ⟨-, y, hy⟩ := h.isFinite_iff.mp hbf
  have hx0 : 0 ≤ x := by
    rw [h.le_iff h.isNaN_zero han, h.value_zero, hx] at hnonneg
    exact_mod_cast hnonneg
  have hy1 : -1 ≤ y ∧ y ≤ 1 := by
    rw [hy] at hlow hhigh
    rw [← EReal.coe_one, ← EReal.coe_neg] at hlow
    exact ⟨EReal.coe_le_coe_iff.mp hlow, EReal.coe_le_coe_iff.mp hhigh⟩
  obtain ⟨hneg, hvalueneg⟩ := hp.neg han
  obtain ⟨hmul, hvaluemul⟩ := hp.mul ha hbf
  rw [hx, hy, ← EReal.coe_mul] at hvaluemul
  refine ⟨hmul, ?_, ?_⟩
  · rw [← h.round_value hneg, hvalueneg, hx, hvaluemul, ← EReal.coe_neg]
    exact h.monotone (EReal.coe_le_coe_iff.mpr (by nlinarith))
  · rw [← h.round_value han, hx, hvaluemul]
    exact h.monotone (EReal.coe_le_coe_iff.mpr (by nlinarith))

/-- So it leads from anywhere at most as far as the length does, although both the product and the
sum are rounded. -/
theorem add_mul_between (hp : Products value round) {m : α} (hm : isFinite m) (ha : isFinite a)
    (hnonneg : le zero a) (hb : isNaN b = false) (hlow : -1 ≤ value b) (hhigh : value b ≤ 1) :
    isNaN (m + a * b) = false ∧
      value (m - a) ≤ value (m + a * b) ∧ value (m + a * b) ≤ value (m + a) := by
  have hmn := h.isNaN_of_isFinite hm
  have han := h.isNaN_of_isFinite ha
  obtain ⟨hmul, hlower, hupper⟩ := h.mul_between hp ha hnonneg hb hlow hhigh
  obtain ⟨hadd, hvalueadd⟩ := h.add hmn hmul (Or.inl hm)
  refine ⟨hadd, ?_, ?_⟩
  · rw [(h.sub hmn han (Or.inl hm)).2, hvalueadd, sub_eq_add_neg, ← (hp.neg han).2]
    exact h.monotone (add_le_add_right hlower _)
  · rw [(h.add hmn han (Or.inl hm)).2, hvalueadd]
    exact h.monotone (add_le_add_right hupper _)

end Rounding

namespace Angles

/-- The number of an angle is a real one. -/
theorem exists_value_atan2 (h : Angles value τ) {y x : α} (hy : isNaN y = false)
    (hx : isNaN x = false) : ∃ θ : ℝ, value (atan2 y x) = θ ∧ -τ ≤ θ ∧ θ ≤ τ :=
  exists_real_of_between (h.neg_le_atan2 hy hx) (h.atan2_le hy hx)

end Angles

/-- **The count above a value**, cut off at the greatest one, if the whole part of the value is cut
off there and whole numbers are compared with it as they are. -/
theorem ceilCount_eq_min {x : ℝ} (htruncate : truncate a = min ⌊x⌋₊ countLimit)
    (hlt : ∀ n ≤ countLimit, (lt (ofNat n) a ↔ n < x)) :
    ceilCount a = min ⌈x⌉₊ countLimit := by
  have hbetween := Nat.floor_le_ceil x
  have hnext := Nat.ceil_le_floor_add_one x
  have hless : lt (ofNat (truncate a)) a = true ↔ truncate a < ⌈x⌉₊ :=
    (hlt _ (htruncate ▸ min_le_right _ _)).trans Nat.lt_ceil.symm
  unfold ceilCount
  simp only [Bool.and_eq_true, decide_eq_true_eq, hless]
  split <;> omega

end Scalar
end Motion
