/-
# Quotients and square roots of doubles

A quotient or a square root has no last digit in general.  Its digits are computed up to a place
that is surely far enough behind, as the whole part of a quotient or root of whole numbers, and with
them it is told whether what is left out is nothing, less than half a unit, half a unit or more.
That is what residual bits say, so the whole part represents the number (`represents_div`,
`represents_sqrt`), and it is rounded like any other mantissa.

The place is right because it does not depend on the digits: the first digits of `x / y` and of `√x`
can be told from those of `x` and `y`, up to one place (`zpow_le_div`, `zpow_le_sqrt`).  A quotient
may be so small that its whole part is nothing; then all that is left is its residual bits.
-/
import Motion.Proofs.Number.Products

namespace Motion.Double

open Float.Model (UnpackedFloat Format totalExponent)
open Float.Model.UnpackedFloat

/-! ## 1. Whole parts -/

variable {n : ℕ} {q : ℝ}

theorem represents_exact (hfloor : ⌊q⌋ = n) (hfract : Int.fract q = 0) :
    Represents (.ofMantissaAndAccuracy n .exact) q where
  floor := hfloor
  roundBit := iff_of_false Bool.false_ne_true (by rw [hfract]; norm_num)
  stickyBit := iff_of_false Bool.false_ne_true fun h => h.1 hfract

/-- What is left out is told by comparing it with half a unit. -/
theorem represents_inexact (hfloor : ⌊q⌋ = n) (hfract : Int.fract q ≠ 0) {o : Ordering}
    (ho : o.Compares (Int.fract q) (1 / 2)) :
    Represents (.ofMantissaAndAccuracy n (.inexact o)) q := by
  refine ⟨hfloor.trans (by rw [mantissa_ofMantissaAndAccuracy]), ?_, ?_⟩ <;> cases o
  case refine_1.lt => exact iff_of_false Bool.false_ne_true ho.not_ge
  case refine_1.eq => exact iff_of_true rfl ho.ge
  case refine_1.gt => exact iff_of_true rfl ho.le
  case refine_2.lt => exact iff_of_true rfl ⟨hfract, ho.ne⟩
  case refine_2.eq => exact iff_of_false Bool.false_ne_true fun h => h.2 ho
  case refine_2.gt => exact iff_of_true rfl ⟨hfract, ho.ne'⟩

theorem represents_div (n : ℕ) {d : ℕ} (hd : 0 < d) :
    Represents (.ofMantissaAndAccuracy (n / d) (accuracyOfFraction (n % d) d)) (n / d : ℝ) := by
  have hd' : (0 : ℝ) < d := Nat.cast_pos.mpr hd
  have hfloor : ⌊(n / d : ℝ)⌋ = ((n / d : ℕ) : ℤ) := by
    have h := Int.floor_div_natCast (n : ℝ) d
    rw [Int.floor_natCast] at h
    exact_mod_cast h
  have hfract : Int.fract (n / d : ℝ) = (n % d : ℕ) / d := by
    have hsplit : ((n / d : ℕ) : ℝ) * d + (n % d : ℕ) = n := by
      exact_mod_cast congrArg (Nat.cast (R := ℝ)) (Nat.div_add_mod' n d)
    rw [Int.fract, hfloor, Int.cast_natCast, eq_div_iff hd'.ne', sub_mul,
      div_mul_cancel₀ _ hd'.ne', ← hsplit]
    ring
  unfold accuracyOfFraction
  split_ifs with hzero
  · exact represents_exact hfloor (by rw [hfract, hzero, Nat.cast_zero, zero_div])
  · have hne : ((n % d : ℕ) : ℝ) ≠ 0 := Nat.cast_ne_zero.mpr hzero
    refine represents_inexact hfloor (by rw [hfract]; positivity) ?_
    rw [hfract]
    rcases lt_trichotomy (2 * (n % d)) d with hlt | heq | hgt
    · rw [compare_lt_iff_lt.mpr hlt]
      change ((n % d : ℕ) / d : ℝ) < 1 / 2
      rw [div_lt_div_iff₀ hd' two_pos]
      exact_mod_cast (by omega : n % d * 2 < 1 * d)
    · rw [compare_eq_iff_eq.mpr heq]
      change ((n % d : ℕ) / d : ℝ) = 1 / 2
      rw [div_eq_div_iff hd'.ne' two_ne_zero]
      exact_mod_cast (by omega : n % d * 2 = 1 * d)
    · rw [compare_gt_iff_gt.mpr hgt]
      change 1 / 2 < ((n % d : ℕ) / d : ℝ)
      rw [div_lt_div_iff₀ two_pos hd']
      exact_mod_cast (by omega : 1 * d < n % d * 2)

/-- Half a unit more than a whole number squared is no whole number, so the remainder decides. -/
theorem represents_sqrt (n : ℕ) :
    Represents (.ofMantissaAndAccuracy n.sqrt (if n - n.sqrt * n.sqrt = 0 then .exact
      else .inexact (if n - n.sqrt * n.sqrt ≤ n.sqrt then .lt else .gt))) √n := by
  have hfloor : ⌊√(n : ℝ)⌋ = (n.sqrt : ℤ) := Real.floor_real_sqrt_eq_nat_sqrt
  obtain ⟨rem, hrem⟩ := Nat.exists_eq_add_of_le (Nat.sqrt_le n)
  -- the root is its whole part `r` and the rest `f`, so `n = r * r + 2 * r * f + f * f`
  set r := n.sqrt
  set f := Int.fract √(n : ℝ) with hf
  have hroot : √(n : ℝ) = r + f := by
    rw [hf, Int.fract, hfloor, Int.cast_natCast]
    ring
  have hsquare : 2 * r * f + f * f = rem := by
    have hself : √(n : ℝ) * √n = n := Real.mul_self_sqrt (Nat.cast_nonneg n)
    have hcast : (n : ℝ) = r * r + rem := by exact_mod_cast congrArg (Nat.cast (R := ℝ)) hrem
    rw [hroot, hcast] at hself
    linarith
  have hnonneg : 0 ≤ f := Int.fract_nonneg _
  have hr : (0 : ℝ) ≤ r := Nat.cast_nonneg r
  rw [show n - r * r = rem by omega]
  split_ifs with hzero hle
  · refine represents_exact hfloor ?_
    rw [hzero, Nat.cast_zero] at hsquare
    nlinarith [mul_nonneg hr hnonneg]
  all_goals
    have hpos : (1 : ℝ) ≤ rem := by exact_mod_cast Nat.one_le_iff_ne_zero.mpr hzero
    refine represents_inexact hfloor (fun h => ?_) ?_
  · rw [← hf] at h
    rw [h] at hsquare
    linarith
  · change f < 1 / 2
    have hle' : (rem : ℝ) ≤ r := by exact_mod_cast hle
    nlinarith
  · rw [← hf] at h
    rw [h] at hsquare
    linarith
  · change 1 / 2 < f
    have hle' : (r : ℝ) + 1 ≤ rem := by exact_mod_cast Nat.lt_of_not_le hle
    nlinarith

/-! ## 2. Places -/

/-- The first digit of a positive float. -/
theorem zpow_totalExponent {m : ℕ} (hm : 0 < m) (e : ℤ) :
    (2 : ℝ) ^ (totalExponent m e - 1) ≤ m * 2 ^ e ∧ (m : ℝ) * 2 ^ e < 2 ^ totalExponent m e := by
  have hpos : (0 : ℝ) < m * 2 ^ e := by positivity
  have hlog := log_mul_zpow hm (Int.floor_natCast m) e
  have htotal : totalExponent m e = Int.log 2 ((m : ℝ) * 2 ^ e) + 1 := by
    rw [hlog, totalExponent]
    ring
  have hlow := Int.zpow_log_le_self one_lt_two hpos
  have hhigh := Int.lt_zpow_succ_log_self one_lt_two ((m : ℝ) * 2 ^ e)
  rw [Nat.cast_ofNat] at hlow hhigh
  rw [htotal, add_sub_cancel_right]
  exact ⟨hlow, hhigh⟩

/-- A number with its first digit at a place or before it has its last place where the digits of
that place end, or before it. -/
theorem targetExponent_le_lastPlace {c : ℤ} {x : ℝ} (hx : (2 : ℝ) ^ (c - 1) ≤ x) :
    Format.binary64.targetExponent c ≤ lastPlace x := by
  have hpos : 0 < x := lt_of_lt_of_le (by positivity) hx
  have hlog : c - 1 ≤ Int.log 2 x := by
    refine (Int.zpow_le_iff_le_log one_lt_two hpos).mp ?_
    rwa [Nat.cast_ofNat]
  rw [targetExponent_eq, lastPlace, abs_of_pos hpos]
  omega

variable {m₁ m₂ : ℕ} (e₁ e₂ : ℤ)

theorem zpow_le_div (h₁ : 0 < m₁) (h₂ : 0 < m₂) :
    (2 : ℝ) ^ (totalExponent m₁ e₁ - totalExponent m₂ e₂ - 1) ≤ m₁ * 2 ^ e₁ / (m₂ * 2 ^ e₂) := by
  rw [le_div_iff₀ (by positivity)]
  calc (2 : ℝ) ^ (totalExponent m₁ e₁ - totalExponent m₂ e₂ - 1) * (m₂ * 2 ^ e₂)
      ≤ 2 ^ (totalExponent m₁ e₁ - totalExponent m₂ e₂ - 1) * 2 ^ totalExponent m₂ e₂ :=
        mul_le_mul_of_nonneg_left (zpow_totalExponent h₂ e₂).2.le (by positivity)
    _ = 2 ^ (totalExponent m₁ e₁ - 1) := by
        rw [← zpow_add₀ two_ne_zero]
        congr 1
        ring
    _ ≤ m₁ * 2 ^ e₁ := (zpow_totalExponent h₁ e₁).1

theorem zpow_le_sqrt {m : ℕ} (hm : 0 < m) (e : ℤ) :
    (2 : ℝ) ^ ((totalExponent m e + 1).ediv 2 - 1) ≤ √(m * 2 ^ e) := by
  refine Real.le_sqrt_of_sq_le ?_
  rw [← zpow_natCast, ← zpow_mul]
  refine (zpow_le_zpow_right₀ one_le_two ?_).trans (zpow_totalExponent hm e).1
  have h := Int.ediv_mul_le (totalExponent m e + 1) (two_ne_zero)
  change (totalExponent m e + 1).ediv 2 * 2 ≤ totalExponent m e + 1 at h
  push_cast
  omega

/-! ## 3. Unpacked quotients and roots -/

theorem div_finite (s : Sign) (h₁ : 0 < m₁) (h₂ : 0 < m₂) :
    ∃ n e accuracy, divCore .binary64 m₁ e₁ m₂ e₂ = (n, e, accuracy) ∧
      Rounded (roundWithAccuracy .binary64 s n e accuracy) ∧
      unpackedValue (roundWithAccuracy .binary64 s n e accuracy) =
        (signed s (nearest (m₁ * 2 ^ e₁ / (m₂ * 2 ^ e₂))) : ℝ) := by
  set c := totalExponent m₁ e₁ - totalExponent m₂ e₂ with hc
  set t := min (e₁ - e₂) (Format.binary64.targetExponent c) with ht
  set k := (e₁ - e₂ - t).toNat with hk
  have hpos₂ : (0 : ℝ) < m₂ := Nat.cast_pos.mpr h₂
  -- the numerator is shifted so that the quotient of the mantissas is one of units
  have hunits : ((m₁ <<< k : ℕ) : ℝ) / m₂ * 2 ^ t = m₁ * 2 ^ e₁ / (m₂ * 2 ^ e₂) := by
    have he : (k : ℤ) + t = e₁ - e₂ := by omega
    have hpow : (2 : ℝ) ^ k * 2 ^ t = 2 ^ e₁ / 2 ^ e₂ := by
      rw [← zpow_natCast, ← zpow_add₀ two_ne_zero, he, zpow_sub₀ two_ne_zero]
    rw [Nat.shiftLeft_eq]
    push_cast
    rw [mul_div_mul_comm, ← hpow]
    ring
  have hquotient := zpow_le_div e₁ e₂ h₁ h₂
  rw [← hc] at hquotient
  have hplace : t ≤ lastPlace (((m₁ <<< k : ℕ) : ℝ) / m₂ * 2 ^ t) := by
    rw [hunits]
    exact (min_le_right _ _).trans (targetExponent_le_lastPlace hquotient)
  have hpos : (0 : ℝ) < ((m₁ <<< k : ℕ) : ℝ) / m₂ := by
    rw [Nat.shiftLeft_eq]
    positivity
  have hwhole : 0 < m₁ <<< k / m₂ ∨ t ≤ -1074 := by
    rw [targetExponent_eq] at ht
    refine or_iff_not_imp_right.mpr fun hlarge => ?_
    have hone : (1 : ℝ) ≤ ((m₁ <<< k : ℕ) : ℝ) / m₂ := by
      refine le_of_mul_le_mul_right ?_ (by positivity : (0 : ℝ) < 2 ^ t)
      rw [hunits, one_mul]
      exact (zpow_le_zpow_right₀ one_le_two (by omega)).trans hquotient
    rw [le_div_iff₀ hpos₂, one_mul] at hone
    exact Nat.div_pos (by exact_mod_cast hone) h₂
  have hspec :=
    roundWithAccuracy_of_represents s (represents_div (m₁ <<< k) h₂) hpos hwhole hplace
  rw [hunits] at hspec
  exact ⟨_, _, _, rfl, hspec⟩

theorem sqrt_finite {m : ℕ} (hm : 0 < m) (e : ℤ) :
    ∃ n t accuracy, sqrtCore .binary64 m e = (n, t, accuracy) ∧
      Rounded (roundWithAccuracy .binary64 .positive n t accuracy) ∧
      unpackedValue (roundWithAccuracy .binary64 .positive n t accuracy) =
        (nearest √(m * 2 ^ e) : ℝ) := by
  set c := (totalExponent m e + 1).ediv 2 with hc
  set t := min (e.ediv 2) (Format.binary64.targetExponent c) with ht
  set k := (e - 2 * t).toNat with hk
  have hunits : √((m <<< k : ℕ) : ℝ) * 2 ^ t = √(m * 2 ^ e) := by
    have he : (k : ℤ) + (t + t) = e := by
      have h := Int.ediv_mul_le e (two_ne_zero)
      change e.ediv 2 * 2 ≤ e at h
      omega
    have hpow : (m * 2 ^ e : ℝ) = (m <<< k : ℕ) * (2 ^ t) ^ 2 := by
      rw [Nat.shiftLeft_eq, ← he, zpow_add₀ two_ne_zero, zpow_add₀ two_ne_zero, zpow_natCast]
      push_cast
      ring
    rw [hpow, Real.sqrt_mul (Nat.cast_nonneg _), Real.sqrt_sq (by positivity)]
  have hplace : t ≤ lastPlace (√((m <<< k : ℕ) : ℝ) * 2 ^ t) := by
    rw [hunits]
    exact (min_le_right _ _).trans (targetExponent_le_lastPlace (zpow_le_sqrt hm e))
  have hmantissa : 0 < m <<< k := by
    rw [Nat.shiftLeft_eq]
    positivity
  have hpos : 0 < √((m <<< k : ℕ) : ℝ) := Real.sqrt_pos.mpr (Nat.cast_pos.mpr hmantissa)
  have hspec := roundWithAccuracy_of_represents .positive (represents_sqrt (m <<< k)) hpos
    (Or.inl (Nat.sqrt_pos.mpr hmantissa)) hplace
  rw [hunits] at hspec
  exact ⟨_, _, _, rfl, hspec⟩

theorem signed_div_signed (s₁ s₂ : Sign) (x y : ℝ) :
    signed (s₁ / s₂) (x / y) = signed s₁ x / signed s₂ y := by
  cases s₁ <;> cases s₂
  · exact (neg_div_neg_eq x y).symm
  · exact (neg_div y x).symm
  · exact (div_neg x).symm
  · rfl

/-- **The quotient of two floats is the rounded quotient of their values**, before packing. -/
theorem div_spec {u v : UnpackedFloat} {x y : ℝ} (hx : unpackedValue u = x)
    (hy : unpackedValue v = y) (hne : y ≠ 0) :
    Rounded (UnpackedFloat.div .binary64 u v) ∧
    (UnpackedFloat.div .binary64 u v).isNaN = false ∧
    unpackedValue (UnpackedFloat.div .binary64 u v) = (nearest (x / y) : ℝ) := by
  rcases zero_or_finite hy with ⟨s', rfl, rfl⟩ | ⟨s', m', e', hm', rfl, rfl⟩
  · exact absurd rfl hne
  · rcases zero_or_finite hx with ⟨s, rfl, rfl⟩ | ⟨s, m, e, hm, rfl, rfl⟩
    · rw [zero_div, nearest_zero]
      exact ⟨trivial, rfl, rfl⟩
    · obtain ⟨n, t, accuracy, hcore, hrounded, hvalue⟩ := div_finite e e' (s / s') hm hm'
      rw [← nearest_signed, signed_div_signed] at hvalue
      unfold UnpackedFloat.div
      simp only [hcore]
      exact ⟨hrounded, isNaN_roundWithAccuracy .., hvalue⟩

/-- **The root of a float is the rounded root of its value**, before packing. -/
theorem sqrt_spec {u : UnpackedFloat} {x : ℝ} (hx : unpackedValue u = x) (hnonneg : 0 ≤ x) :
    Rounded (UnpackedFloat.sqrt .binary64 u) ∧
    (UnpackedFloat.sqrt .binary64 u).isNaN = false ∧
    unpackedValue (UnpackedFloat.sqrt .binary64 u) = (nearest √x : ℝ) := by
  rcases zero_or_finite hx with ⟨s, rfl, rfl⟩ | ⟨s, m, e, hm, rfl, rfl⟩
  · rw [Real.sqrt_zero, nearest_zero]
    exact ⟨trivial, rfl, rfl⟩
  · have hpos : (0 : ℝ) < m * 2 ^ e := by positivity
    cases s with
    | negative => exact absurd hnonneg (neg_neg_of_pos hpos).not_ge
    | positive =>
      obtain ⟨n, t, accuracy, hcore, hrounded, hvalue⟩ := sqrt_finite hm e
      unfold UnpackedFloat.sqrt
      simp only [hcore]
      exact ⟨hrounded, isNaN_roundWithAccuracy .., hvalue⟩

/-! ## 4. Doubles -/

variable {a b : Float} {x y : ℝ}

theorem value_div (hx : value a = x) (hy : value b = y) (hne : y ≠ 0) :
    (a / b).isNaN = false ∧ value (a / b) = round (x / y : ℝ) := by
  obtain ⟨hrounded, hnan, hvalue⟩ := div_spec hx hy hne
  refine ⟨(isNaN_unpack_pack hrounded).trans hnan, ?_⟩
  rw [round_coe]
  exact unpackedValue_unpack_pack hrounded hvalue

theorem value_sqrt (hx : value a = x) (hnonneg : 0 ≤ x) :
    (Float.sqrt a).isNaN = false ∧ value (Float.sqrt a) = round (√x : ℝ) := by
  obtain ⟨hrounded, hnan, hvalue⟩ := sqrt_spec hx hnonneg
  refine ⟨(isNaN_unpack_pack hrounded).trans hnan, ?_⟩
  rw [round_coe]
  exact unpackedValue_unpack_pack hrounded hvalue

end Motion.Double
