/-
# How doubles are rounded

The arithmetic of doubles works on whole mantissas.  To round one it shifts it to the right and
keeps two bits of what is shifted out: the last one, and whether any before it was set.  This module
proves that nothing more is needed.

* The two bits tell apart the four places that a number can have between two whole ones
  (`Represents`), and that stays so with every digit that is shifted out.  Therefore the mantissa
  that they are rounded by is the nearest whole number, in every case
  (`Represents.roundedMantissa`).
* The digits are shifted to the place of `lastPlace`, which the arithmetic finds by counting the
  digits of the mantissa.  Rounding may carry into a 54th digit; then the mantissa is a power of two
  and shifting it once more loses nothing.  So the rounded float has the value `nearest`
  (`round_spec`), and is again `Rounded`.
* A sum or a difference is computed with mantissas that are brought to one exponent, without loss,
  and is rounded once: it is the rounded sum of the values (`packed_add_spec`).
-/
import Motion.Proofs.Number.Unpacked

namespace Motion.Double

open Float.Model (Format UnpackedFloat totalExponent)
open Float.Model.UnpackedFloat

/-! ## 1. The digits that are shifted out -/

/-- The residual bits of a mantissa say where a number lies between two whole ones. -/
structure Represents (m : ExtendedMantissa) (q : ℝ) : Prop where
  floor : ⌊q⌋ = m.mantissa
  roundBit : m.roundBit ↔ 1 / 2 ≤ Int.fract q
  stickyBit : m.stickyBit ↔ Int.fract q ≠ 0 ∧ Int.fract q ≠ 1 / 2

theorem represents_natCast (n : ℕ) : Represents (.ofMantissaAndAccuracy n .exact) n where
  floor := Int.floor_natCast n
  roundBit := by simp [ExtendedMantissa.ofMantissaAndAccuracy]
  stickyBit := by simp [ExtendedMantissa.ofMantissaAndAccuracy]

theorem mantissa_ofMantissaAndAccuracy (n : ℕ) (accuracy : Accuracy) :
    (ExtendedMantissa.ofMantissaAndAccuracy n accuracy).mantissa = n := by
  rcases accuracy with _ | _ | _ | _ <;> rfl

theorem floor_fract_half (q : ℝ) :
    ⌊q / 2⌋ = ⌊q⌋ / 2 ∧ Int.fract (q / 2) = (Int.fract q + (⌊q⌋ % 2 : ℤ)) / 2 := by
  have hfloor : ⌊q / 2⌋ = ⌊q⌋ / 2 := by
    have h := Int.floor_div_natCast q 2
    exact_mod_cast h
  refine ⟨hfloor, ?_⟩
  rw [Int.fract, Int.fract, hfloor, Int.emod_def]
  push_cast
  ring

variable {m : ExtendedMantissa} {q : ℝ}

/-- The bit that is shifted out becomes the round bit. -/
theorem Represents.shiftRightOne (h : Represents m q) : Represents m.shiftRightOne (q / 2) := by
  obtain ⟨hfloor, hfract⟩ := floor_fract_half q
  obtain ⟨hwhole, hround, hsticky⟩ := h
  obtain ⟨m, roundBit, stickyBit⟩ := m
  simp only at hwhole hround hsticky
  have hnonneg := Int.fract_nonneg q
  have hlt := Int.fract_lt_one q
  -- what the two residual bits say together
  have hresidual : roundBit || stickyBit ↔ Int.fract q ≠ 0 := by
    rw [Bool.or_eq_true, hround, hsticky]
    constructor
    · rintro (hhalf | ⟨hne, -⟩)
      · linarith
      · exact hne
    · intro hne
      by_cases hhalf : 1 / 2 ≤ Int.fract q
      · exact Or.inl hhalf
      · exact Or.inr ⟨hne, by linarith⟩
  rw [hwhole] at hfract
  refine ⟨by rw [hfloor, hwhole]; rfl, ?_, ?_⟩
  all_goals
    simp only [ExtendedMantissa.shiftRightOne, hresidual, bne_iff_ne]
    rcases Nat.mod_two_eq_zero_or_one m with hbit | hbit
    all_goals
      have hdigit : ((m : ℤ) % 2 : ℤ) = (m % 2 : ℕ) := by omega
      rw [hfract, hdigit, hbit]
      push_cast
  · exact iff_of_false (by simp) (by linarith)
  · exact iff_of_true (by simp) (by linarith)
  · constructor
    · intro hne
      refine ⟨by simpa using hne, fun h => by linarith⟩
    · rintro ⟨hne, -⟩
      simpa using hne
  · constructor
    · intro hne
      exact ⟨fun h => by linarith, fun h => hne (by linarith)⟩
    · rintro ⟨-, hne⟩ h
      rw [h] at hne
      norm_num at hne

theorem Represents.shiftRight (h : Represents m q) (k : ℕ) : Represents (m >>> k) (q / 2 ^ k) := by
  induction k with
  | zero =>
    rw [pow_zero, div_one]
    exact h
  | succ k ih =>
    rw [pow_succ, ← div_div]
    exact ih.shiftRightOne

/-- The rounded mantissa is the nearest whole number. -/
theorem Represents.roundedMantissa (h : Represents m q) :
    (m.roundedMantissa : ℤ) = nearestEven q := by
  obtain ⟨m, roundBit, stickyBit⟩ := m
  obtain ⟨hwhole, hround, hsticky⟩ := h
  simp only at hwhole hround hsticky
  unfold nearestEven
  rw [hwhole]
  cases roundBit <;> cases stickyBit <;>
    simp only [Bool.false_eq_true, false_iff, true_iff, not_le] at hround hsticky
  · rw [if_pos hround]
    rfl
  · rw [if_pos hround]
    rfl
  · have hhalf : Int.fract q = 1 / 2 := by
      by_contra hne
      exact hsticky ⟨by linarith, hne⟩
    rw [hhalf, if_neg (lt_irrefl _), if_neg (lt_irrefl _)]
    rfl
  · have habove : 1 / 2 < Int.fract q := lt_of_le_of_ne hround (Ne.symm hsticky.2)
    rw [if_neg habove.not_gt, if_pos habove]
    rfl

/-! ## 2. The place of the last digit -/

/-- The place of the first digit of a number is that of its whole part. -/
theorem log_mul_zpow {n : ℕ} (hn : 0 < n) {q : ℝ} (hfloor : ⌊q⌋ = n) (e : ℤ) :
    Int.log 2 (q * 2 ^ e) = n.log2 + e := by
  have hle : (n : ℝ) ≤ q := by exact_mod_cast Int.le_floor.mp hfloor.ge
  have hlt : q < n + 1 := by
    have := Int.lt_floor_add_one q
    rwa [hfloor, Int.cast_natCast] at this
  have hpos : 0 < q * 2 ^ e := mul_pos ((Nat.cast_pos.mpr hn).trans_le hle) (by positivity)
  have hlow : ((2 : ℕ) : ℝ) ^ ((n.log2 : ℤ) + e) ≤ q * 2 ^ e := by
    rw [Nat.cast_ofNat, zpow_add₀ two_ne_zero, zpow_natCast]
    have hfirst : (2 : ℝ) ^ n.log2 ≤ n := by exact_mod_cast Nat.log2_self_le hn.ne'
    exact mul_le_mul_of_nonneg_right (hfirst.trans hle) (by positivity)
  have hhigh : q * 2 ^ e < ((2 : ℕ) : ℝ) ^ ((n.log2 : ℤ) + e + 1) := by
    rw [Nat.cast_ofNat, add_right_comm, zpow_add₀ two_ne_zero]
    have hnext : (n : ℝ) + 1 ≤ 2 ^ ((n.log2 : ℤ) + 1) := by
      exact_mod_cast Nat.succ_le_of_lt (Nat.lt_log2_self (n := n))
    exact mul_lt_mul_of_pos_right (hlt.trans_le hnext) (by positivity)
  have := (Int.zpow_le_iff_le_log one_lt_two hpos).mp hlow
  have := (Int.lt_zpow_iff_log_lt one_lt_two hpos).mp hhigh
  omega

theorem targetExponent_eq (total : ℤ) :
    Format.binary64.targetExponent total = max (total - 53) (-1074) := rfl

/-- The exponent of a rounded float is the place of its last digit.  The mantissa is the whole part
of the number of units; where that is nothing, the unit has to be too small for a digit of a
double. -/
theorem targetExponent_eq_lastPlace {n : ℕ} {q : ℝ} (hq : 0 < q) (hfloor : ⌊q⌋ = n) {e : ℤ}
    (hn : 0 < n ∨ e ≤ -1074) :
    Format.binary64.targetExponent (totalExponent n e) = lastPlace (q * 2 ^ e) := by
  have hpos : 0 < q * 2 ^ e := by positivity
  rw [targetExponent_eq, totalExponent, lastPlace, abs_of_pos hpos]
  rcases Nat.eq_zero_or_pos n with rfl | hn'
  · -- then the number is below its unit, and so is its last place
    have he : e ≤ -1074 := hn.resolve_left (lt_irrefl 0)
    have hone : q < 1 := by
      have := Int.floor_lt.mp (hfloor.trans_lt one_pos)
      exact_mod_cast this
    have hbelow : q * 2 ^ e < ((2 : ℕ) : ℝ) ^ e := by
      rw [Nat.cast_ofNat]
      exact mul_lt_of_lt_one_left (by positivity) hone
    have := (Int.lt_zpow_iff_log_lt one_lt_two hpos).mp hbelow
    rw [Nat.log2_zero]
    omega
  · rw [log_mul_zpow hn' hfloor]
    congr 1
    omega

theorem shiftToTargetExponent_of_le {n : ℕ} {q : ℝ} (hq : 0 < q) (hfloor : ⌊q⌋ = n) {e : ℤ}
    (hn : 0 < n ∨ e ≤ -1074) (h : e ≤ lastPlace (q * 2 ^ e)) (accuracy : Accuracy) :
    shiftToTargetExponent .binary64 n e accuracy =
      (ExtendedMantissa.ofMantissaAndAccuracy n accuracy >>> (lastPlace (q * 2 ^ e) - e).toNat,
        lastPlace (q * 2 ^ e)) := by
  unfold shiftToTargetExponent shiftToExponent
  rw [targetExponent_eq_lastPlace hq hfloor hn]
  exact Prod.ext rfl (by dsimp only; omega)

/-- A mantissa of at most 53 digits is left alone. -/
theorem shiftToTargetExponent_of_lt {r : ℕ} {t : ℤ} (hr : r < 2 ^ 53) (ht : -1074 ≤ t) :
    shiftToTargetExponent .binary64 r t .exact = (⟨r, false, false⟩, t) := by
  have hlog : r.log2 ≤ 52 := by
    rcases Nat.eq_zero_or_pos r with rfl | hpos
    · simp
    · have := (Nat.log2_lt (k := 53) hpos.ne').mpr hr
      omega
  have hshift : (max (totalExponent r t - 53) (-1074) - t).toNat = 0 := by
    rw [totalExponent]
    omega
  unfold shiftToTargetExponent shiftToExponent
  rw [targetExponent_eq]
  simp only [hshift]
  exact Prod.ext rfl (add_zero t)

/-- A mantissa that rounding has carried to the next power of two is halved. -/
theorem shiftToTargetExponent_carry {t : ℤ} (ht : -1074 ≤ t) :
    shiftToTargetExponent .binary64 (2 ^ 53) t .exact = (⟨2 ^ 52, false, false⟩, t + 1) := by
  have hshift : (max (totalExponent (2 ^ 53) t - 53) (-1074) - t).toNat = 1 := by
    rw [totalExponent, Nat.log2_two_pow]
    omega
  unfold shiftToTargetExponent shiftToExponent
  rw [targetExponent_eq]
  simp only [hshift]
  rfl

/-! ## 3. Rounding -/

/-- Rounding shifts twice: to the place of the last digit, and once more if the carry wants it. -/
theorem roundWithAccuracy_of_shifts (s : Sign) {n : ℕ} {e e₁ e₂ : ℤ} {m₁ m₂ : ExtendedMantissa}
    {accuracy : Accuracy} (h₁ : shiftToTargetExponent .binary64 n e accuracy = (m₁, e₁))
    (h₂ : shiftToTargetExponent .binary64 m₁.roundedMantissa e₁ .exact = (m₂, e₂)) :
    roundWithAccuracy .binary64 s n e accuracy =
      if h : m₂.mantissa = 0 then .zero s
      else .finite s m₂.mantissa e₂ (Nat.pos_of_ne_zero h) := by
  unfold roundWithAccuracy
  simp only [h₁, h₂]

/-- The carry changes the mantissa and the exponent, and not the number. -/
theorem roundWithAccuracy_of_shift (s : Sign) {n : ℕ} {e t : ℤ} {m : ExtendedMantissa}
    {accuracy : Accuracy} (hshift : shiftToTargetExponent .binary64 n e accuracy = (m, t))
    (ht : -1074 ≤ t) (hm : m.roundedMantissa ≤ 2 ^ 53)
    (hnormal : 2 ^ 52 ≤ m.roundedMantissa ∨ t = -1074) :
    Rounded (roundWithAccuracy .binary64 s n e accuracy) ∧
    unpackedValue (roundWithAccuracy .binary64 s n e accuracy) =
      (signed s (m.roundedMantissa * 2 ^ t) : ℝ) := by
  rcases hm.eq_or_lt with hcarry | hlt
  · have hagain := shiftToTargetExponent_carry ht
    rw [← hcarry] at hagain
    have hhalf : ((2 ^ 52 : ℕ) : ℝ) * 2 ^ (t + 1) = ((2 ^ 53 : ℕ) : ℝ) * 2 ^ t := by
      rw [zpow_add_one₀ two_ne_zero]
      push_cast
      ring
    rw [roundWithAccuracy_of_shifts s hshift hagain, dif_neg (by norm_num), hcarry]
    refine ⟨⟨by norm_num, by omega, Or.inl le_rfl⟩, ?_⟩
    rw [unpackedValue_finite, hhalf]
  · rw [roundWithAccuracy_of_shifts s hshift (shiftToTargetExponent_of_lt hlt ht)]
    split_ifs with hzero
    · refine ⟨trivial, ?_⟩
      simp only at hzero
      rw [hzero]
      cases s <;> simp [unpackedValue, signed]
    · exact ⟨⟨hlt, ht, hnormal⟩, rfl⟩

/-- **A mantissa is rounded to the nearest float of what it represents**, residual bits included. -/
theorem roundWithAccuracy_of_represents (s : Sign) {n : ℕ} {accuracy : Accuracy} {q : ℝ}
    (h : Represents (.ofMantissaAndAccuracy n accuracy) q) (hq : 0 < q) {e : ℤ}
    (hn : 0 < n ∨ e ≤ -1074) (he : e ≤ lastPlace (q * 2 ^ e)) :
    Rounded (roundWithAccuracy .binary64 s n e accuracy) ∧
    unpackedValue (roundWithAccuracy .binary64 s n e accuracy) =
      (signed s (nearest (q * 2 ^ e)) : ℝ) := by
  have hpos : 0 < q * 2 ^ e := by positivity
  have hplace : -1074 ≤ lastPlace (q * 2 ^ e) := le_max_right ..
  have hfloor := h.floor
  rw [mantissa_ofMantissaAndAccuracy] at hfloor
  have hshift := shiftToTargetExponent_of_le hq hfloor hn he accuracy
  obtain ⟨hhigh, hlow⟩ := nearestEven_div_lastPlace hpos
  rw [nearest, nearestOn]
  generalize lastPlace (q * 2 ^ e) = t at he hhigh hlow hplace hshift ⊢
  obtain ⟨k, rfl⟩ := Int.le.dest he
  rw [add_sub_cancel_left, Int.toNat_natCast] at hshift
  have hquotient : q * 2 ^ e / 2 ^ (e + k) = q / 2 ^ k := by
    rw [zpow_add₀ two_ne_zero, zpow_natCast]
    field_simp
  have hround := (h.shiftRight k).roundedMantissa
  rw [hquotient, ← hround] at hhigh hlow ⊢
  exact roundWithAccuracy_of_shift s hshift hplace (by exact_mod_cast hhigh)
    (by exact_mod_cast hlow)

theorem roundWithAccuracy_spec (s : Sign) {n : ℕ} (hn : 0 < n) {e : ℤ}
    (he : e ≤ lastPlace (n * 2 ^ e)) :
    Rounded (roundWithAccuracy .binary64 s n e .exact) ∧
    unpackedValue (roundWithAccuracy .binary64 s n e .exact) =
      (signed s (nearest (n * 2 ^ e)) : ℝ) :=
  roundWithAccuracy_of_represents s (represents_natCast n) (Nat.cast_pos.mpr hn) (Or.inl hn) he

/-- **Rounding a float gives the nearest one.** -/
theorem round_spec (s : Sign) {n : ℕ} (hn : 0 < n) (e : ℤ) :
    Rounded (UnpackedFloat.round .binary64 s n e) ∧
    unpackedValue (UnpackedFloat.round .binary64 s n e) =
      (signed s (nearest (n * 2 ^ e)) : ℝ) := by
  have hdecrease (k : ℕ) : ((n <<< k : ℕ) : ℝ) * 2 ^ (e - k) = n * 2 ^ e := by
    rw [Nat.shiftLeft_eq, zpow_sub₀ two_ne_zero, zpow_natCast]
    push_cast
    field_simp
  unfold UnpackedFloat.round decreaseExponent
  rw [targetExponent_eq_lastPlace (Nat.cast_pos.mpr hn) (Int.floor_natCast n) (Or.inl hn)]
  set k := (e - lastPlace (n * 2 ^ e)).toNat
  have hspec := roundWithAccuracy_spec s (n := n <<< k) (e := e - k)
    (by rw [Nat.shiftLeft_eq]; positivity) (by rw [hdecrease]; omega)
  rwa [hdecrease] at hspec

theorem normalize_spec (n : ℤ) (e : ℤ) (s : Sign) :
    Rounded (UnpackedFloat.normalize .binary64 n e s) ∧
    unpackedValue (UnpackedFloat.normalize .binary64 n e s) = (nearest (n * 2 ^ e) : ℝ) := by
  unfold UnpackedFloat.normalize
  rcases lt_trichotomy n 0 with hneg | rfl | hpos
  · rw [compare_lt_iff_lt.mpr hneg]
    have hspec := round_spec .negative (n := (-n).toNat) (by omega) e
    have hcast : (((-n).toNat : ℕ) : ℝ) = -n := by
      exact_mod_cast congrArg (Int.cast (R := ℝ)) (Int.toNat_of_nonneg (by omega : 0 ≤ -n))
    rw [hcast] at hspec
    refine ⟨hspec.1, ?_⟩
    rw [hspec.2, signed, neg_mul, nearest_neg, neg_neg]
  · refine ⟨trivial, ?_⟩
    rw [Int.cast_zero, zero_mul, nearest_zero]
    rfl
  · rw [compare_gt_iff_gt.mpr hpos]
    have hspec := round_spec .positive (n := n.toNat) (by omega) e
    have hcast : ((n.toNat : ℕ) : ℝ) = n := by
      exact_mod_cast congrArg (Int.cast (R := ℝ)) (Int.toNat_of_nonneg hpos.le)
    rwa [hcast] at hspec

theorem isNaN_roundWithAccuracy (s : Sign) (m : ℕ) (e : ℤ) (a : Accuracy) :
    (roundWithAccuracy .binary64 s m e a).isNaN = false := by
  unfold roundWithAccuracy
  dsimp only
  split <;> rfl

theorem isNaN_normalize (n e : ℤ) (s : Sign) :
    (UnpackedFloat.normalize .binary64 n e s).isNaN = false := by
  unfold UnpackedFloat.normalize
  split
  · exact isNaN_roundWithAccuracy ..
  · rfl
  · exact isNaN_roundWithAccuracy ..

/-! ## 4. Sums and differences -/

theorem decreaseExponent_eq {e t : ℤ} (h : t ≤ e) (m : ℕ) :
    ∃ n : ℕ, decreaseExponent m e t = (n, t) ∧ (n : ℝ) * 2 ^ t = m * 2 ^ e := by
  obtain ⟨k, rfl⟩ := Int.le.dest h
  refine ⟨m <<< k, ?_, ?_⟩
  · unfold decreaseExponent
    simp only [add_sub_cancel_left, Int.toNat_natCast, add_sub_cancel_right]
  · rw [Nat.shiftLeft_eq, zpow_add₀ two_ne_zero, zpow_natCast]
    push_cast
    ring

theorem add_finite {s₁ s₂ : Sign} {m₁ m₂ : ℕ} {e₁ e₂ : ℤ} (h₁ : 0 < m₁) (h₂ : 0 < m₂) :
    ∃ n e : ℤ,
      UnpackedFloat.add .binary64 (.finite s₁ m₁ e₁ h₁) (.finite s₂ m₂ e₂ h₂) =
        UnpackedFloat.normalize .binary64 n e .positive ∧
      (n : ℝ) * 2 ^ e = signed s₁ (m₁ * 2 ^ e₁) + signed s₂ (m₂ * 2 ^ e₂) := by
  obtain ⟨n₁, hdec₁, hval₁⟩ := decreaseExponent_eq (min_le_left e₁ e₂) m₁
  obtain ⟨n₂, hdec₂, hval₂⟩ := decreaseExponent_eq (min_le_right e₁ e₂) m₂
  refine ⟨s₁.apply n₁ + s₂.apply n₂, min e₁ e₂, ?_, ?_⟩
  · unfold UnpackedFloat.add
    simp only [hdec₁, hdec₂]
  · rw [Int.cast_add, intCast_apply, intCast_apply, add_mul, ← signed_mul, ← signed_mul, hval₁,
      hval₂]

/-- **The sum of two floats is the rounded sum of their values**, before packing. -/
theorem add_spec {u v : UnpackedFloat} {x y : ℝ} (hu : Rounded u) (hv : Rounded v)
    (hx : unpackedValue u = x) (hy : unpackedValue v = y) :
    Rounded (UnpackedFloat.add .binary64 u v) ∧
    (UnpackedFloat.add .binary64 u v).isNaN = false ∧
    unpackedValue (UnpackedFloat.add .binary64 u v) = (nearest (x + y) : ℝ) := by
  rcases zero_or_finite hx with ⟨s, rfl, rfl⟩ | ⟨s, m, e, hm, rfl, rfl⟩
  · rw [zero_add]
    rcases zero_or_finite hy with ⟨s', rfl, rfl⟩ | ⟨s', m', e', hm', rfl, rfl⟩
    · rw [nearest_zero]
      cases s <;> cases s' <;> exact ⟨trivial, rfl, rfl⟩
    · rw [nearest_of_isDouble (isDouble_of_rounded hv)]
      exact ⟨hv, rfl, rfl⟩
  · rcases zero_or_finite hy with ⟨s', rfl, rfl⟩ | ⟨s', m', e', hm', rfl, rfl⟩
    · rw [add_zero, nearest_of_isDouble (isDouble_of_rounded hu)]
      exact ⟨hu, rfl, rfl⟩
    · obtain ⟨n, e'', hadd, hsum⟩ := @add_finite s s' m m' e e' hm hm'
      obtain ⟨hrounded, hvalue⟩ := normalize_spec n e'' .positive
      rw [hadd, ← hsum]
      exact ⟨hrounded, isNaN_normalize .., hvalue⟩

theorem sub_eq_add_neg (u v : UnpackedFloat) :
    UnpackedFloat.sub .binary64 u v = UnpackedFloat.add .binary64 u v.neg := by
  rcases u with s | _ | s | ⟨s, m, e, hm⟩ <;> rcases v with s' | _ | s' | ⟨s', m', e', hm'⟩
  case finite.finite =>
    have hneg (k : ℕ) : (-s').apply k = -s'.apply k := by
      cases s'
      · exact (neg_neg (k : ℤ)).symm
      · rfl
    simp only [UnpackedFloat.sub, UnpackedFloat.add, UnpackedFloat.neg, hneg, Int.sub_eq_add_neg]
  all_goals rfl

theorem unpackedValue_neg {v : UnpackedFloat} (hv : v.isNaN = false) :
    unpackedValue v.neg = -unpackedValue v := by
  rcases v with (_ | _) | _ | s | ⟨s, m, e, hm⟩
  · exact EReal.neg_bot.symm
  · exact EReal.neg_top.symm
  · cases hv
  · exact neg_zero.symm
  · exact (congrArg _ (signed_neg s (m * 2 ^ e))).trans (EReal.coe_neg _)

theorem rounded_neg {v : UnpackedFloat} (h : Rounded v) : Rounded v.neg := by
  cases v
  all_goals exact h

/-- A float plus an infinite one. -/
theorem add_infinity {u : UnpackedFloat} (hu : u.isFinite) (s : Sign) :
    UnpackedFloat.add .binary64 u (.infinity s) = .infinity s ∧
    UnpackedFloat.add .binary64 (.infinity s) u = .infinity s := by
  cases u with
  | infinity => cases hu
  | notANumber => cases hu
  | zero => exact ⟨rfl, rfl⟩
  | finite => exact ⟨rfl, rfl⟩

theorem infinity_add_coe (s : Sign) (x : ℝ) :
    unpackedValue (.infinity s) + x = unpackedValue (.infinity s) := by
  cases s
  · exact EReal.bot_add x
  · exact EReal.top_add_coe x

theorem isFinite_or_infinity {u : UnpackedFloat} (hun : u.isNaN = false) :
    u.isFinite ∨ ∃ s, u = .infinity s := by
  cases u with
  | infinity s => exact Or.inr ⟨s, rfl⟩
  | notANumber => cases hun
  | zero => exact Or.inl rfl
  | finite => exact Or.inl rfl

/-- **The sum of two floats is the rounded sum of their values.** -/
theorem packed_add_spec {u v : UnpackedFloat} (hu : Rounded u) (hv : Rounded v)
    (hun : u.isNaN = false) (hvn : v.isNaN = false) (h : u.isFinite ∨ v.isFinite) :
    (unpack .binary64 ((UnpackedFloat.add .binary64 u v).pack .binary64)).isNaN = false ∧
    unpackedValue (unpack .binary64 ((UnpackedFloat.add .binary64 u v).pack .binary64)) =
      round (unpackedValue u + unpackedValue v) := by
  rcases isFinite_or_infinity hun with hfu | ⟨s, rfl⟩
  · obtain ⟨x, hx⟩ := (isFinite_iff_unpackedValue u).mp hfu
    rcases isFinite_or_infinity hvn with hfv | ⟨s, rfl⟩
    · obtain ⟨y, hy⟩ := (isFinite_iff_unpackedValue v).mp hfv
      obtain ⟨hrounded, hnan, hvalue⟩ := add_spec hu hv hx hy
      refine ⟨(isNaN_unpack_pack hrounded).trans hnan, ?_⟩
      rw [unpackedValue_unpack_pack hrounded hvalue, hx, hy, ← EReal.coe_add, round_coe]
    · rw [(add_infinity hfu s).1, unpack_pack hv trivial, hx, add_comm, infinity_add_coe,
        round_infinity]
      exact ⟨rfl, rfl⟩
  · have hfv : v.isFinite := h.resolve_left Bool.false_ne_true
    obtain ⟨y, hy⟩ := (isFinite_iff_unpackedValue v).mp hfv
    rw [(add_infinity hfv s).2, unpack_pack hu trivial, hy, infinity_add_coe, round_infinity]
    exact ⟨rfl, rfl⟩

end Motion.Double
