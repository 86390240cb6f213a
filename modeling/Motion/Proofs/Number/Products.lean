/-
# Products of doubles

The product of two doubles is the rounded product of their numbers.  The mantissas are multiplied as
they are and the product is rounded once, which is right because it never has too few digits: either
one of the mantissas has all 53 digits, or both numbers are so small that their product has digits
far behind the last place of a double (`le_lastPlace_mul`).

With the negative of a double and the greatest finite one, double precision has the laws of
`Scalar.Products` and of `Scalar.Ranged`.  The sine and the cosine are not computed here; as with
the angles of directions, other functions can be put in their place (`withCircle`).
-/
import Motion.Proofs.Number.DoubleValue

namespace Motion.Double

open Float.Model (UnpackedFloat)
open Float.Model.UnpackedFloat (Sign pack unpack roundWithAccuracy)

/-! ## 1. Unpacked products -/

/-- The digits of a product of mantissas reach to the last place of the product. -/
theorem le_lastPlace_mul {m₁ m₂ : ℕ} {e₁ e₂ : ℤ} (h₁ : 0 < m₁) (h₂ : 0 < m₂)
    (hn₁ : 2 ^ 52 ≤ m₁ ∨ e₁ = -1074) (hn₂ : 2 ^ 52 ≤ m₂ ∨ e₂ = -1074) :
    e₁ + e₂ ≤ lastPlace ((m₁ * m₂ : ℕ) * 2 ^ (e₁ + e₂)) := by
  have hpos : 0 < m₁ * m₂ := Nat.mul_pos h₁ h₂
  rw [lastPlace, abs_of_pos (by positivity), log_mul_zpow hpos (Int.floor_natCast _)]
  have hdigits : ∀ m ∈ [m₁, m₂], 2 ^ 52 ≤ m → 52 ≤ (m₁ * m₂).log2 := by
    intro m hm hle
    refine (Nat.le_log2 hpos.ne').mpr (hle.trans ?_)
    simp only [List.mem_cons, List.not_mem_nil, or_false] at hm
    rcases hm with rfl | rfl
    · exact Nat.le_mul_of_pos_right _ h₂
    · exact Nat.le_mul_of_pos_left _ h₁
  rcases hn₁ with hn₁ | rfl
  · have := hdigits m₁ (by simp) hn₁
    omega
  rcases hn₂ with hn₂ | rfl
  · have := hdigits m₂ (by simp) hn₂
    omega
  · omega

theorem signed_mul_signed (s₁ s₂ : Sign) (x y : ℝ) :
    signed (s₁ * s₂) (x * y) = signed s₁ x * signed s₂ y := by
  cases s₁ <;> cases s₂
  · exact (neg_mul_neg x y).symm
  · exact neg_mul_eq_neg_mul x y
  · exact neg_mul_eq_mul_neg x y
  · rfl

theorem nearest_signed (s : Sign) (x : ℝ) : nearest (signed s x) = signed s (nearest x) := by
  cases s
  · exact nearest_neg x
  · rfl

/-- **The product of two floats is the rounded product of their values**, before packing. -/
theorem mul_spec {u v : UnpackedFloat} {x y : ℝ} (hu : Rounded u) (hv : Rounded v)
    (hx : unpackedValue u = x) (hy : unpackedValue v = y) :
    Rounded (UnpackedFloat.mul .binary64 u v) ∧
    (UnpackedFloat.mul .binary64 u v).isNaN = false ∧
    unpackedValue (UnpackedFloat.mul .binary64 u v) = (nearest (x * y) : ℝ) := by
  rcases zero_or_finite hx with ⟨s, rfl, rfl⟩ | ⟨s, m, e, hm, rfl, rfl⟩
  · rw [zero_mul, nearest_zero]
    rcases zero_or_finite hy with ⟨s', rfl, rfl⟩ | ⟨s', m', e', hm', rfl, rfl⟩ <;>
      exact ⟨trivial, rfl, rfl⟩
  · rcases zero_or_finite hy with ⟨s', rfl, rfl⟩ | ⟨s', m', e', hm', rfl, rfl⟩
    · rw [mul_zero, nearest_zero]
      exact ⟨trivial, rfl, rfl⟩
    · have hproduct : ((m * m' : ℕ) : ℝ) * 2 ^ (e + e') = m * 2 ^ e * (m' * 2 ^ e') := by
        rw [zpow_add₀ two_ne_zero]
        push_cast
        ring
      obtain ⟨hrounded, hvalue⟩ := roundWithAccuracy_spec (s * s') (Nat.mul_pos hm hm')
        (le_lastPlace_mul hm hm' hu.2.2 hv.2.2)
      rw [hproduct, ← nearest_signed, signed_mul_signed] at hvalue
      exact ⟨hrounded, isNaN_roundWithAccuracy .., hvalue⟩

/-! ## 2. Products, negatives and the greatest double -/

variable {a b : Float}

theorem value_mul (ha : a.isFinite) (hb : b.isFinite) :
    (a * b).isNaN = false ∧ value (a * b) = round (value a * value b) := by
  obtain ⟨x, hx⟩ := isFinite_iff_value.mp ha
  obtain ⟨y, hy⟩ := isFinite_iff_value.mp hb
  obtain ⟨hrounded, hnan, hvalue⟩ := mul_spec (rounded_unpacked a) (rounded_unpacked b) hx hy
  refine ⟨(isNaN_unpack_pack hrounded).trans hnan, ?_⟩
  rw [hx, hy, ← EReal.coe_mul, round_coe]
  exact unpackedValue_unpack_pack hrounded hvalue

theorem unpacked_neg (a : Float) : unpacked (-a) = (unpacked a).neg := by
  obtain ⟨hrounded, hrange⟩ := rounded_unpack a.toModel.toBits.toBitVec
  refine unpack_pack (rounded_neg hrounded) ?_
  change InRange (unpacked a) at hrange
  change InRange (unpacked a).neg
  cases hu : unpacked a with
  | finite =>
    rw [hu] at hrange
    exact hrange
  | _ => trivial

theorem value_neg (ha : a.isNaN = false) : (-a).isNaN = false ∧ value (-a) = -value a := by
  refine ⟨?_, ?_⟩
  · change (unpacked (-a)).isNaN = false
    change (unpacked a).isNaN = false at ha
    rw [unpacked_neg]
    cases hu : unpacked a <;> rw [hu] at ha <;> trivial
  · rw [value, unpacked_neg]
    exact unpackedValue_neg ha

theorem value_largest : value Scalar.largest = ((2 ^ 53 - 1 : ℕ) * 2 ^ (971 : ℤ) : ℝ) := rfl

/-- No finite double is greater than the greatest one, whatever its sign. -/
theorem abs_le_largest (ha : a.isFinite) :
    -value Scalar.largest ≤ value a ∧ value a ≤ value Scalar.largest := by
  obtain ⟨x, hx⟩ := isFinite_iff_value.mp ha
  obtain ⟨hrounded, hrange⟩ := rounded_unpack a.toModel.toBits.toBitVec
  have habs : |x| ≤ ((2 ^ 53 - 1 : ℕ) * 2 ^ (971 : ℤ) : ℝ) := by
    change Rounded (unpacked a) at hrounded
    change InRange (unpacked a) at hrange
    rw [value] at hx
    rcases zero_or_finite hx with ⟨s, -, rfl⟩ | ⟨s, m, e, hm, hu, rfl⟩
    · rw [abs_zero]
      positivity
    · rw [hu] at hrounded hrange
      rw [abs_signed, abs_of_pos (by positivity)]
      refine mul_le_mul ?_ (zpow_le_zpow_right₀ one_le_two hrange) (by positivity) (by positivity)
      exact_mod_cast Nat.le_sub_one_of_lt hrounded.1
  obtain ⟨hlow, hhigh⟩ := abs_le.mp habs
  rw [value_largest, hx, ← EReal.coe_neg]
  exact ⟨EReal.coe_le_coe_iff.mpr hlow, EReal.coe_le_coe_iff.mpr hhigh⟩

/-- What is no number is not less than anything, and nothing is less than it. -/
theorem isNaN_of_lt (h : a < b) : a.isNaN = false ∧ b.isNaN = false := by
  have hlt : (unpacked a).lt (unpacked b) := of_decide_eq_true h
  change (unpacked a).isNaN = false ∧ (unpacked b).isNaN = false
  cases ha : unpacked a <;> cases hb : unpacked b <;> rw [ha, hb] at hlt <;>
    first | exact ⟨rfl, rfl⟩ | cases hlt

theorem isNaN_of_le (h : a ≤ b) : a.isNaN = false ∧ b.isNaN = false := by
  have hle : (unpacked a).le (unpacked b) := of_decide_eq_true h
  change (unpacked a).isNaN = false ∧ (unpacked b).isNaN = false
  cases ha : unpacked a <;> cases hb : unpacked b <;> rw [ha, hb] at hle <;>
    first | exact ⟨rfl, rfl⟩ | cases hle

theorem le_trans_double {c : Float} (hab : a ≤ b) (hbc : b ≤ c) : a ≤ c := by
  obtain ⟨ha, hb⟩ := isNaN_of_le hab
  obtain ⟨-, hc⟩ := isNaN_of_le hbc
  rw [le_iff_value ha hc]
  exact ((le_iff_value ha hb).mp hab).trans ((le_iff_value hb hc).mp hbc)

/-! ## 3. The laws -/

/-- Double precision with other functions for the sine and the cosine of an angle. -/
@[reducible] def withCircle (sine cosine : Float → Float) : Scalar Float :=
  { (inferInstance : Scalar Float) with sin := sine, cos := cosine }

/-- The arithmetic that programs run in is the one with the functions of the platform. -/
theorem withCircle_sin_cos : withCircle Float.sin Float.cos = instScalarFloat := rfl

theorem isNaN_withCircle (sine cosine : Float → Float) (a : Float) :
    @Scalar.isNaN Float (withCircle sine cosine) a = a.isNaN := (isNaN_eq_not_beq a).symm

variable (sine cosine : Float → Float)

theorem rounding_withCircle : @Scalar.Rounding Float (withCircle sine cosine) value round :=
  have h := rounding_double Float.atan2
  @Scalar.Rounding.mk Float (withCircle sine cosine) value round h.monotone h.round_value h.lt_iff
    h.le_iff h.isFinite_iff h.isFinite_zero h.value_zero h.add h.sub

theorem products_withCircle : @Scalar.Products Float (withCircle sine cosine) value round := by
  refine @Scalar.Products.mk Float (withCircle sine cosine) value round ?neg ?mul
  all_goals simp only [isNaN_withCircle]
  case neg => exact value_neg
  case mul => exact value_mul

theorem ranged_withCircle : @Scalar.Ranged Float (withCircle sine cosine) value := by
  have hlargest : (Scalar.largest : Float).isFinite := isFinite_iff_value.mpr ⟨_, value_largest⟩
  obtain ⟨hneg, hvalue⟩ := value_neg (isNaN_of_isFinite hlargest)
  refine @Scalar.Ranged.mk Float (withCircle sine cosine) value ?isNaN_of_lt hlargest ?neg ?lt
    (fun ha => (abs_le_largest ha).2) fun ha => ?le
  case neg => exact isFinite_iff_value.mpr ⟨_, hvalue⟩
  case lt =>
    have hpos : (0 : ℝ) < (2 ^ 53 - 1 : ℕ) * 2 ^ (971 : ℤ) := by norm_num
    change value (-Scalar.largest) < value Scalar.largest
    rw [hvalue, value_largest, ← EReal.coe_neg]
    exact EReal.coe_lt_coe_iff.mpr (neg_lt_self hpos)
  case le =>
    change value (-Scalar.largest) ≤ _
    rw [hvalue]
    exact (abs_le_largest ha).1
  case isNaN_of_lt =>
    simp only [isNaN_withCircle]
    exact fun h => isNaN_of_lt (of_decide_eq_true h)

end Motion.Double
