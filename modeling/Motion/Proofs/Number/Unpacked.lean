/-
# Doubles as sign, mantissa and exponent

A double is computed with in an unpacked form, a sign, a whole mantissa and an exponent of two, and
is packed into 64 bits afterwards.  The unpacked form says less than the packed one: one number has
many mantissas.  What holds of every unpacked double (`Rounded`) leaves it one of them:

| mantissa              | exponent       | the numbers                     |
|-----------------------|----------------|---------------------------------|
| from 2^52 to 2^53 - 1 | from -1074 on  | with all of their 53 digits     |
| below 2^52            | -1074          | too small for that              |

This module says what number an unpacked float stands for (`unpackedValue`) and what can be told of
it without the number.

* **Rounded floats compare as their numbers do** (`compares_unpackedValue`), although they are
  compared by sign, exponent and mantissa, and not as numbers.
* **Packing loses nothing of a rounded float** as long as the exponent fits into its field
  (`unpack_pack`).  From 2^1024 on it does not, and packing gives the infinity
  (`unpackedValue_unpack_pack`).
-/
import Motion.Proofs.Number.Nearest

namespace Motion.Double

open Float.Model (Format UnpackedFloat)
open Float.Model.UnpackedFloat

/-! ## 1. The number of an unpacked float -/

/-- A number with a sign put before it. -/
def signed : Sign → ℝ → ℝ
  | .negative, x => -x
  | .positive, x => x

/-- The number that an unpacked float stands for; that of what is no number is not a real one. -/
noncomputable def unpackedValue : UnpackedFloat → EReal
  | .infinity .negative => ⊥
  | .infinity .positive => ⊤
  | .notANumber => ⊤
  | .zero _ => (0 : ℝ)
  | .finite s m e _ => (signed s (m * (2 : ℕ) ^ e) : ℝ)

/-- The float has as many digits as a double can have, and no more. -/
def Rounded : UnpackedFloat → Prop
  | .finite _ m e _ => m < 2 ^ 53 ∧ -1074 ≤ e ∧ (2 ^ 52 ≤ m ∨ e = -1074)
  | _ => True

/-- The exponent of the float fits into its field. -/
def InRange : UnpackedFloat → Prop
  | .finite _ _ e _ => e ≤ 971
  | _ => True

@[simp] theorem unpackedValue_finite (s : Sign) (m : ℕ) (e : ℤ) (h : 0 < m) :
    unpackedValue (.finite s m e h) = (signed s (m * 2 ^ e) : ℝ) := rfl

theorem signed_neg (s : Sign) (x : ℝ) : signed (-s) x = -signed s x := by
  cases s
  · exact (neg_neg x).symm
  · rfl

theorem signed_mul (s : Sign) (x y : ℝ) : signed s (x * y) = signed s x * y := by
  cases s <;> simp [signed]

theorem abs_signed (s : Sign) (x : ℝ) : |signed s x| = |x| := by
  cases s
  · exact abs_neg x
  · rfl

/-- A float with a real value is a zero or has a mantissa. -/
theorem zero_or_finite {u : UnpackedFloat} {x : ℝ} (hx : unpackedValue u = x) :
    (∃ s, u = .zero s ∧ x = 0) ∨ ∃ s m e h, u = .finite s m e h ∧ x = signed s (m * 2 ^ e) := by
  rcases u with (_ | _) | _ | s | ⟨s, m, e, hm⟩
  · simp [unpackedValue] at hx
  · simp [unpackedValue] at hx
  · simp [unpackedValue] at hx
  · exact Or.inl ⟨s, rfl, (EReal.coe_injective hx).symm⟩
  · exact Or.inr ⟨s, m, e, hm, rfl, (EReal.coe_injective hx).symm⟩

theorem isFinite_iff_unpackedValue (u : UnpackedFloat) :
    u.isFinite ↔ ∃ x : ℝ, unpackedValue u = x := by
  rcases u with (_ | _) | _ | s | ⟨s, m, e, hm⟩
  · exact iff_of_false Bool.false_ne_true fun ⟨x, hx⟩ => EReal.bot_ne_coe x hx
  · exact iff_of_false Bool.false_ne_true fun ⟨x, hx⟩ => EReal.top_ne_coe x hx
  · exact iff_of_false Bool.false_ne_true fun ⟨x, hx⟩ => EReal.top_ne_coe x hx
  · exact iff_of_true rfl ⟨0, rfl⟩
  · exact iff_of_true rfl ⟨signed s (m * 2 ^ e), rfl⟩

theorem intCast_apply (s : Sign) (n : ℕ) : ((s.apply n : ℤ) : ℝ) = signed s n := by
  cases s <;> simp [Sign.apply, signed]

theorem isDouble_of_rounded {s : Sign} {m : ℕ} {e : ℤ} {h : 0 < m}
    (hu : Rounded (.finite s m e h)) : IsDouble (signed s (m * 2 ^ e)) := by
  obtain ⟨hlt, hle, -⟩ := hu
  refine ⟨s.apply m, e, ?_, ?_, hle⟩
  · rw [intCast_apply, signed_mul]
  · cases s <;> simp [Sign.apply] <;> exact_mod_cast hlt

/-! ## 2. The order -/

/-- Of two rounded floats the one with the larger exponent is larger. -/
theorem value_lt_value {m₁ m₂ : ℕ} {e₁ e₂ : ℤ} (h₁ : m₁ < 2 ^ 53) (h₂ : 2 ^ 52 ≤ m₂)
    (he : e₁ < e₂) : (m₁ : ℝ) * 2 ^ e₁ < m₂ * 2 ^ e₂ := by
  calc (m₁ : ℝ) * 2 ^ e₁ < 2 ^ 53 * 2 ^ e₁ :=
        mul_lt_mul_of_pos_right (by exact_mod_cast h₁) (by positivity)
    _ = 2 ^ 52 * 2 ^ (e₁ + 1) := by rw [zpow_add₀ two_ne_zero]; ring
    _ ≤ 2 ^ 52 * 2 ^ e₂ :=
        mul_le_mul_of_nonneg_left (zpow_le_zpow_right₀ one_le_two he) (by positivity)
    _ ≤ m₂ * 2 ^ e₂ := mul_le_mul_of_nonneg_right (by exact_mod_cast h₂) (by positivity)

/-- Rounded floats of one sign compare by the exponent, and then by the mantissa. -/
theorem compares_magnitude {m₁ m₂ : ℕ} {e₁ e₂ : ℤ} {s₁ s₂ : Sign} {p₁ : 0 < m₁} {p₂ : 0 < m₂}
    (h₁ : Rounded (.finite s₁ m₁ e₁ p₁)) (h₂ : Rounded (.finite s₂ m₂ e₂ p₂)) :
    ((compare e₁ e₂).then (compare m₁ m₂)).Compares ((m₁ : ℝ) * 2 ^ e₁) (m₂ * 2 ^ e₂) := by
  obtain ⟨hm₁, he₁, hn₁⟩ := h₁
  obtain ⟨hm₂, he₂, hn₂⟩ := h₂
  rcases lt_trichotomy e₁ e₂ with he | rfl | he
  · rw [compare_lt_iff_lt.mpr he]
    exact value_lt_value hm₁ (by omega) he
  · have hunit : (0 : ℝ) < 2 ^ e₁ := by positivity
    rw [compare_eq_iff_eq.mpr rfl, Ordering.eq_then]
    rcases lt_trichotomy m₁ m₂ with hm | rfl | hm
    · rw [compare_lt_iff_lt.mpr hm]
      exact mul_lt_mul_of_pos_right (by exact_mod_cast hm) hunit
    · rw [compare_eq_iff_eq.mpr rfl]
      exact rfl
    · rw [compare_gt_iff_gt.mpr hm]
      exact mul_lt_mul_of_pos_right (by exact_mod_cast hm) hunit
  · rw [compare_gt_iff_gt.mpr he]
    exact value_lt_value hm₂ (by omega) he

theorem compares_swap_neg {o : Ordering} {x y : ℝ} (h : o.Compares x y) :
    o.swap.Compares (-x) (-y) := by
  cases o
  · exact neg_lt_neg h
  · exact congrArg Neg.neg h
  · exact neg_lt_neg h

theorem compares_coe {o : Ordering} {x y : ℝ} (h : o.Compares x y) :
    o.Compares (x : EReal) (y : EReal) := by
  cases o
  · exact EReal.coe_lt_coe_iff.mpr h
  · exact congrArg _ h
  · exact EReal.coe_lt_coe_iff.mpr h

/-- **Floats compare as their values do.** -/
theorem compares_unpackedValue {u v : UnpackedFloat} (hu : Rounded u) (hv : Rounded v)
    (hun : u.isNaN = false) (hvn : v.isNaN = false) :
    ∃ o, u.compare v = some o ∧ o.Compares (unpackedValue u) (unpackedValue v) := by
  have hpos {m : ℕ} {e : ℤ} (h : 0 < m) : (0 : ℝ) < m * 2 ^ e := by positivity
  rcases u with (_ | _) | _ | _ | ⟨_ | _, m, e, h⟩
  · rcases v with (_ | _) | _ | _ | _
    · exact ⟨.eq, rfl, rfl⟩
    · exact ⟨.lt, rfl, bot_lt_top⟩
    · cases hvn
    · exact ⟨.lt, rfl, EReal.bot_lt_coe _⟩
    · exact ⟨.lt, rfl, EReal.bot_lt_coe _⟩
  · rcases v with (_ | _) | _ | _ | _
    · exact ⟨.gt, rfl, bot_lt_top⟩
    · exact ⟨.eq, rfl, rfl⟩
    · cases hvn
    · exact ⟨.gt, rfl, EReal.coe_lt_top _⟩
    · exact ⟨.gt, rfl, EReal.coe_lt_top _⟩
  · cases hun
  · rcases v with (_ | _) | _ | _ | ⟨_ | _, m', e', h'⟩
    · exact ⟨.gt, rfl, EReal.bot_lt_coe _⟩
    · exact ⟨.lt, rfl, EReal.coe_lt_top _⟩
    · cases hvn
    · exact ⟨.eq, rfl, rfl⟩
    · exact ⟨.gt, rfl, EReal.coe_lt_coe_iff.mpr (neg_lt_zero.mpr (hpos h'))⟩
    · exact ⟨.lt, rfl, EReal.coe_lt_coe_iff.mpr (hpos h')⟩
  · rcases v with (_ | _) | _ | _ | ⟨_ | _, m', e', h'⟩
    · exact ⟨.gt, rfl, EReal.bot_lt_coe _⟩
    · exact ⟨.lt, rfl, EReal.coe_lt_top _⟩
    · cases hvn
    · exact ⟨.lt, rfl, EReal.coe_lt_coe_iff.mpr (neg_lt_zero.mpr (hpos h))⟩
    · exact ⟨_, rfl, compares_coe (compares_swap_neg (compares_magnitude hu hv))⟩
    · exact ⟨.lt, rfl, EReal.coe_lt_coe_iff.mpr ((neg_lt_zero.mpr (hpos h)).trans (hpos h'))⟩
  · rcases v with (_ | _) | _ | _ | ⟨_ | _, m', e', h'⟩
    · exact ⟨.gt, rfl, EReal.bot_lt_coe _⟩
    · exact ⟨.lt, rfl, EReal.coe_lt_top _⟩
    · cases hvn
    · exact ⟨.gt, rfl, EReal.coe_lt_coe_iff.mpr (hpos h)⟩
    · exact ⟨.gt, rfl, EReal.coe_lt_coe_iff.mpr ((neg_lt_zero.mpr (hpos h')).trans (hpos h))⟩
    · exact ⟨_, rfl, compares_coe (compares_magnitude hu hv)⟩

theorem lt_iff_unpackedValue {u v : UnpackedFloat} (hu : Rounded u) (hv : Rounded v)
    (hun : u.isNaN = false) (hvn : v.isNaN = false) :
    u.lt v ↔ unpackedValue u < unpackedValue v := by
  obtain ⟨o, ho, hcompares⟩ := compares_unpackedValue hu hv hun hvn
  rw [UnpackedFloat.lt, ho, ← hcompares.eq_lt]
  simp

theorem le_iff_unpackedValue {u v : UnpackedFloat} (hu : Rounded u) (hv : Rounded v)
    (hun : u.isNaN = false) (hvn : v.isNaN = false) :
    u.le v ↔ unpackedValue u ≤ unpackedValue v := by
  obtain ⟨o, ho, hcompares⟩ := compares_unpackedValue hu hv hun hvn
  rw [UnpackedFloat.le, ho, ← hcompares.ne_gt]
  cases o <;> simp

theorem beq_iff_unpackedValue {u v : UnpackedFloat} (hu : Rounded u) (hv : Rounded v)
    (hun : u.isNaN = false) (hvn : v.isNaN = false) :
    u.beq v ↔ unpackedValue u = unpackedValue v := by
  obtain ⟨o, ho, hcompares⟩ := compares_unpackedValue hu hv hun hvn
  rw [UnpackedFloat.beq, ho, ← hcompares.eq_eq]
  simp

/-! ## 3. Packing -/

theorem toNat_one_append (v : BitVec 52) : (1#1 ++ v).toNat = 2 ^ 52 + v.toNat := by
  rw [BitVec.toNat_append, ← Nat.shiftLeft_add_eq_or_of_lt v.isLt]
  rfl

theorem unpack_packComponents (s : Sign) (e : BitVec 11) (m : BitVec 52) :
    unpack .binary64 (packComponents .binary64 s e m) =
      if e = -1#11 then if m = 0#52 then .infinity s else .notANumber
      else if e = 0#11 then
        if h : m = 0#52 then .zero s
        else .finite s m.toNat (-1074) (by simpa [BitVec.toNat_pos, BitVec.pos_iff_ne_zero] using h)
      else .finite s (1#1 ++ m).toNat (e.toNat - 1075) (by rw [toNat_one_append]; omega) := by
  unfold unpack
  simp only [unpackMantissa_packComponents, unpackExponent_packComponents,
    unpackSign_packComponents, Sign.ofBitVec_toBitVec]
  have hbias : ((Format.binary64.exponentBias : ℕ) : ℤ) = 1023 := rfl
  split_ifs with h1 h2 h3 h4
  · rfl
  · rfl
  · rfl
  · simp [h3, hbias]
  · simp [hbias]

theorem rounded_unpack (b : BitVec Format.binary64.numBits) :
    Rounded (unpack .binary64 b) ∧ InRange (unpack .binary64 b) := by
  rw [← @packComponents_unpackSign_unpackExponent_unpackMantissa .binary64 b]
  generalize Sign.ofBitVec (unpackSign b) = s
  generalize (unpackExponent b : BitVec 11) = e
  generalize (unpackMantissa b : BitVec 52) = m
  have hm : m.toNat < 2 ^ 52 := m.isLt
  have he : e.toNat < 2 ^ 11 := e.isLt
  rw [unpack_packComponents]
  split_ifs with hinf _ hzero
  · exact ⟨trivial, trivial⟩
  · exact ⟨trivial, trivial⟩
  · exact ⟨trivial, trivial⟩
  · refine ⟨⟨by omega, le_rfl, Or.inr rfl⟩, ?_⟩
    unfold InRange
    omega
  · have hne : e.toNat ≠ 2047 := fun h => hinf (BitVec.eq_of_toNat_eq h)
    have hne0 : e.toNat ≠ 0 := fun h => hzero (BitVec.eq_of_toNat_eq h)
    have happend := toNat_one_append m
    refine ⟨⟨by omega, by omega, Or.inl (by omega)⟩, ?_⟩
    unfold InRange
    omega

theorem ofNat_ne {w n : ℕ} {v : BitVec w} (hn : n < 2 ^ w) (h : n ≠ v.toNat) :
    BitVec.ofNat w n ≠ v := by
  rintro rfl
  rw [BitVec.toNat_ofNat, Nat.mod_eq_of_lt hn] at h
  exact h rfl

/-- A mantissa of 53 digits is packed without the first one. -/
theorem unpack_packComponents_normal (s : Sign) {k m : ℕ} (hk : 0 < k) (hk' : k < 2047)
    (hm : 0 < m) (hlow : 2 ^ 52 ≤ m) (hhigh : m < 2 ^ 53) :
    unpack .binary64 (packComponents .binary64 s (BitVec.ofNat 11 k) (BitVec.ofNat 52 m)) =
      .finite s m (k - 1075) hm := by
  have hfield : k < 2 ^ 11 := by omega
  have hinf : BitVec.ofNat 11 k ≠ -1#11 := ofNat_ne hfield hk'.ne
  have hzero : BitVec.ofNat 11 k ≠ 0#11 := ofNat_ne hfield hk.ne'
  have happend := toNat_one_append (BitVec.ofNat 52 m)
  rw [unpack_packComponents, if_neg hinf, if_neg hzero]
  rw [BitVec.toNat_ofNat] at happend
  congr 1
  · omega
  · rw [BitVec.toNat_ofNat, Nat.mod_eq_of_lt hfield]

/-- A shorter mantissa is packed as it is, and the exponent field is zero. -/
theorem unpack_packComponents_subnormal (s : Sign) {m : ℕ} (hm : 0 < m) (hlt : m < 2 ^ 52) :
    unpack .binary64 (packComponents .binary64 s 0#11 (BitVec.ofNat 52 m)) =
      .finite s m (-1074) hm := by
  have hzero : BitVec.ofNat 52 m ≠ 0#52 := ofNat_ne hlt hm.ne'
  rw [unpack_packComponents, if_neg (by decide), if_pos rfl, dif_neg hzero]
  congr 1
  rw [BitVec.toNat_ofNat, Nat.mod_eq_of_lt hlt]

/-- **Packing keeps what is rounded** and not too large. -/
theorem unpack_pack {u : UnpackedFloat} (hu : Rounded u) (hr : InRange u) :
    unpack .binary64 (u.pack .binary64) = u := by
  cases u with
  | infinity s => cases s <;> rfl
  | notANumber => rfl
  | zero s => cases s <;> rfl
  | finite s m e hm =>
    obtain ⟨hlt, hle, hnormal⟩ := hu
    have hr : e ≤ 971 := hr
    have hbias : ((Format.binary64.exponentBias : ℕ) : ℤ) = 1023 := rfl
    have hfield : (e + (Format.binary64.exponentBias : ℕ) + (52 : ℕ)).toNat = (e + 1075).toNat := by
      rw [hbias]
      omega
    have hdigits : m.log2 + 1 = 53 ↔ 2 ^ 52 ≤ m := by
      have := Nat.le_log2 (k := 52) hm.ne'
      have := (Nat.log2_lt (k := 53) hm.ne').mpr hlt
      omega
    unfold pack
    simp only [hfield]
    rw [if_neg (by omega)]
    split_ifs with hnorm
    · have hlow : 2 ^ 52 ≤ m := hdigits.mp hnorm
      refine (unpack_packComponents_normal s (by omega) (by omega) hm hlow hlt).trans ?_
      congr 1
      omega
    · have hsub : m < 2 ^ 52 := not_le.mp (mt hdigits.mpr hnorm)
      refine (unpack_packComponents_subnormal s hm hsub).trans ?_
      congr 1
      omega

/-- Packing a float with too large an exponent gives the infinity of its sign. -/
theorem unpack_pack_of_large (s : Sign) (m : ℕ) {e : ℤ} (hm : 0 < m) (he : 971 < e) :
    unpack .binary64 ((UnpackedFloat.finite s m e hm).pack .binary64) = .infinity s := by
  have hbias : ((Format.binary64.exponentBias : ℕ) : ℤ) = 1023 := rfl
  have hfield : 2 ^ 11 ≤ (e + (Format.binary64.exponentBias : ℕ) + (52 : ℕ)).toNat + 1 := by
    rw [hbias]
    omega
  unfold pack
  simp only
  rw [if_pos hfield]
  cases s <;> rfl

theorem isNaN_unpack_pack {u : UnpackedFloat} (hu : Rounded u) :
    (unpack .binary64 (u.pack .binary64)).isNaN = u.isNaN := by
  rcases u with s | _ | s | ⟨s, m, e, hm⟩
  · rw [unpack_pack hu trivial]
  · rfl
  · rw [unpack_pack hu trivial]
  · rcases le_or_gt e 971 with he | he
    · rw [unpack_pack hu he]
    · rw [unpack_pack_of_large s m hm he]
      rfl

theorem overflow_signed {s : Sign} {x : ℝ} (hx : 2 ^ 1024 ≤ x) :
    overflow (signed s x) = unpackedValue (.infinity s) := by
  cases s
  · have hpos : (0 : ℝ) < 2 ^ 1024 := by positivity
    have hneg : ¬(2 : ℝ) ^ 1024 ≤ -x :=
      not_le.mpr ((neg_lt_zero.mpr (hpos.trans_le hx)).trans hpos)
    rw [signed, overflow, if_neg hneg, if_pos (neg_le_neg hx)]
    rfl
  · rw [signed, overflow, if_pos hx]
    rfl

theorem magnitude_lt {m : ℕ} {e : ℤ} (hm : m < 2 ^ 53) (he : e ≤ 971) :
    (m : ℝ) * 2 ^ e < 2 ^ 1024 := by
  calc (m : ℝ) * 2 ^ e < 2 ^ 53 * 2 ^ e :=
        mul_lt_mul_of_pos_right (by exact_mod_cast hm) (by positivity)
    _ = 2 ^ ((53 : ℕ) + e) := by rw [zpow_add₀ two_ne_zero, zpow_natCast]
    _ ≤ 2 ^ ((1024 : ℕ) : ℤ) := zpow_le_zpow_right₀ one_le_two (by omega)
    _ = 2 ^ 1024 := zpow_natCast 2 1024

theorem le_magnitude {m : ℕ} {e : ℤ} (hm : 2 ^ 52 ≤ m) (he : 971 < e) :
    (2 : ℝ) ^ 1024 ≤ m * 2 ^ e := by
  calc (2 : ℝ) ^ 1024 = 2 ^ ((1024 : ℕ) : ℤ) := (zpow_natCast 2 1024).symm
    _ ≤ 2 ^ ((52 : ℕ) + e) := zpow_le_zpow_right₀ one_le_two (by omega)
    _ = 2 ^ 52 * 2 ^ e := by rw [zpow_add₀ two_ne_zero, zpow_natCast]
    _ ≤ m * 2 ^ e := mul_le_mul_of_nonneg_right (by exact_mod_cast hm) (by positivity)

/-- What the value of a rounded float is after packing. -/
theorem unpackedValue_unpack_pack {u : UnpackedFloat} (hu : Rounded u) {x : ℝ}
    (hx : unpackedValue u = x) :
    unpackedValue (unpack .binary64 (u.pack .binary64)) = overflow x := by
  rcases u with (_ | _) | _ | s | ⟨s, m, e, hm⟩
  · simp [unpackedValue] at hx
  · simp [unpackedValue] at hx
  · simp [unpackedValue] at hx
  · obtain rfl : 0 = x := EReal.coe_injective hx
    rw [unpack_pack hu trivial, overflow_of_abs_lt (by simp)]
    rfl
  · obtain rfl : signed s (m * 2 ^ e) = x := EReal.coe_injective hx
    rcases le_or_gt e 971 with he | he
    · rw [unpack_pack hu he, overflow_of_abs_lt]
      · rfl
      · rw [abs_signed, abs_of_nonneg (by positivity)]
        exact magnitude_lt hu.1 he
    · have hnormal : 2 ^ 52 ≤ m := hu.2.2.resolve_right (by omega)
      rw [unpack_pack_of_large s m hm he, overflow_signed (le_magnitude hnormal he)]

theorem round_infinity (s : Sign) :
    round (unpackedValue (.infinity s)) = unpackedValue (.infinity s) := by
  cases s <;> rfl

/-- What is rounded already stays. -/
theorem round_unpackedValue {u : UnpackedFloat} (hu : Rounded u) (hr : InRange u)
    (hun : u.isNaN = false) : round (unpackedValue u) = unpackedValue u := by
  rcases u with s | _ | s | ⟨s, m, e, hm⟩
  · exact round_infinity s
  · cases hun
  · exact round_of_isDouble isDouble_zero (by simp)
  · refine round_of_isDouble (isDouble_of_rounded hu) ?_
    rw [abs_signed, abs_of_nonneg (by positivity)]
    exact magnitude_lt hu.1 hr

end Motion.Double
