/-
# The double nearest to a real number

A finite double is a whole number of units in its last place, and how large that unit is follows
from the order of magnitude: between two powers of two it is the same, and it doubles at each of
them (`lastPlace`), but it never gets smaller than 2^-1074.  To round is to take the nearest whole
number of units, of two that are equally near the even one (`nearest`), and from 2^1024 on there is
nothing but the infinity (`round`).

This module is about real numbers alone; `Motion.Proofs.Number.Carrying` says that doubles are
rounded like this.  Two facts matter for all that is built on it.

* **Rounding is monotone** (`monotone_round`).  Where two numbers have different units, a power of
  two lies between them which both of them have as a multiple of their unit, and neither is rounded
  past it.
* **Rounding keeps doubles** (`round_of_isDouble`): they are multiples of their unit.
-/
import Mathlib

namespace Motion.Double

/-! ## 1. Whole numbers -/

/-- The nearest whole number, the even one of two that are equally near. -/
noncomputable def nearestEven (q : ℝ) : ℤ :=
  if Int.fract q < 1 / 2 then ⌊q⌋
  else if 1 / 2 < Int.fract q then ⌊q⌋ + 1
  else ⌊q⌋ + ⌊q⌋ % 2

theorem floor_le_nearestEven (q : ℝ) : ⌊q⌋ ≤ nearestEven q := by
  unfold nearestEven
  split_ifs <;> omega

theorem nearestEven_le_floor_add_one (q : ℝ) : nearestEven q ≤ ⌊q⌋ + 1 := by
  unfold nearestEven
  split_ifs <;> omega

theorem nearestEven_le_of_lt {x : ℝ} {n : ℤ} (h : x < n) : nearestEven x ≤ n := by
  have := nearestEven_le_floor_add_one x
  have := Int.floor_lt.mpr h
  omega

theorem le_nearestEven {x : ℝ} {n : ℤ} (h : (n : ℝ) ≤ x) : n ≤ nearestEven x :=
  (Int.le_floor.mpr h).trans (floor_le_nearestEven x)

@[simp] theorem nearestEven_intCast (n : ℤ) : nearestEven n = n := by simp [nearestEven]

theorem monotone_nearestEven : Monotone nearestEven := by
  intro x y hxy
  rcases (Int.floor_mono hxy).eq_or_lt with hfloor | hfloor
  · -- with the same whole part, the fractions decide
    have hfract : Int.fract x ≤ Int.fract y := by
      rw [Int.fract, Int.fract, hfloor]
      linarith
    unfold nearestEven
    rw [hfloor]
    split_ifs <;> first | omega | linarith
  · calc nearestEven x ≤ ⌊x⌋ + 1 := nearestEven_le_floor_add_one x
      _ ≤ ⌊y⌋ := hfloor
      _ ≤ nearestEven y := floor_le_nearestEven y

theorem nearestEven_neg (q : ℝ) : nearestEven (-q) = -nearestEven q := by
  by_cases hq : Int.fract q = 0
  · have hcast : ((⌊q⌋ : ℤ) : ℝ) = q := by
      rw [Int.fract] at hq
      linarith
    rw [← hcast, ← Int.cast_neg, nearestEven_intCast, nearestEven_intCast]
  · have hfract : Int.fract (-q) = 1 - Int.fract q := Int.fract_neg hq
    have hfloor : ⌊-q⌋ = -⌊q⌋ - 1 := by
      have hsub : ((⌊-q⌋ : ℤ) : ℝ) = ((-⌊q⌋ - 1 : ℤ) : ℝ) := by
        push_cast
        rw [Int.fract, Int.fract] at hfract
        linarith
      exact_mod_cast hsub
    unfold nearestEven
    rw [hfract, hfloor]
    split_ifs <;> first | omega | linarith

/-! ## 2. Multiples of a unit -/

/-- The nearest multiple of 2^u. -/
noncomputable def nearestOn (u : ℤ) (x : ℝ) : ℝ := nearestEven (x / 2 ^ u) * 2 ^ u

theorem monotone_nearestOn (u : ℤ) : Monotone (nearestOn u) := by
  intro x y hxy
  have hu : (0 : ℝ) < 2 ^ u := by positivity
  have hquotient : x / 2 ^ u ≤ y / 2 ^ u := (div_le_div_iff_of_pos_right hu).mpr hxy
  exact mul_le_mul_of_nonneg_right (by exact_mod_cast monotone_nearestEven hquotient) hu.le

theorem nearestOn_neg (u : ℤ) (x : ℝ) : nearestOn u (-x) = -nearestOn u x := by
  rw [nearestOn, neg_div, nearestEven_neg, nearestOn]
  push_cast
  ring

/-- Multiples of the unit, and of every larger one, are kept. -/
theorem nearestOn_of_multiple {u v : ℤ} (h : u ≤ v) (n : ℤ) :
    nearestOn u (n * 2 ^ v) = n * 2 ^ v := by
  obtain ⟨k, rfl⟩ := Int.le.dest h
  have hquotient : (n : ℝ) * 2 ^ (u + k) / 2 ^ u = ((n * 2 ^ k : ℤ) : ℝ) := by
    rw [zpow_add₀ two_ne_zero, zpow_natCast]
    push_cast
    field_simp
  rw [nearestOn, hquotient, nearestEven_intCast, ← hquotient]
  exact div_mul_cancel₀ _ (by positivity)

/-! ## 3. The unit of a number -/

/-- The unit in the last place of the doubles around a number is two to this. -/
noncomputable def lastPlace (x : ℝ) : ℤ := max (Int.log 2 |x| - 52) (-1074)

/-- The nearest number with 53 binary digits and none behind the place of 2^-1074. -/
noncomputable def nearest (x : ℝ) : ℝ := nearestOn (lastPlace x) x

/-- A positive number has at most 53 digits before the place of its last one, -/
theorem div_lastPlace_lt {x : ℝ} (hx : 0 < x) : x / 2 ^ lastPlace x < 2 ^ 53 := by
  have hself := Int.lt_zpow_succ_log_self one_lt_two |x|
  rw [abs_of_pos hx, Nat.cast_ofNat] at hself
  rw [div_lt_iff₀ (by positivity), ← zpow_natCast, ← zpow_add₀ two_ne_zero]
  refine hself.trans_le (zpow_le_zpow_right₀ one_le_two ?_)
  rw [lastPlace, abs_of_pos hx]
  push_cast
  omega

/-- and exactly 53 unless it is too small for that. -/
theorem le_div_lastPlace {x : ℝ} (hx : 0 < x) :
    2 ^ 52 ≤ x / 2 ^ lastPlace x ∨ lastPlace x = -1074 := by
  refine or_iff_not_imp_right.mpr fun hplace => ?_
  have hself := Int.zpow_log_le_self one_lt_two hx
  rw [Nat.cast_ofNat] at hself
  rw [le_div_iff₀ (by positivity), ← zpow_natCast, ← zpow_add₀ two_ne_zero]
  refine le_trans (zpow_le_zpow_right₀ one_le_two ?_) hself
  rw [lastPlace, abs_of_pos hx] at hplace ⊢
  push_cast
  omega

/-- So the nearest whole number of units has at most 53 digits as well, or is the next power of
two. -/
theorem nearestEven_div_lastPlace {x : ℝ} (hx : 0 < x) :
    nearestEven (x / 2 ^ lastPlace x) ≤ 2 ^ 53 ∧
      (2 ^ 52 ≤ nearestEven (x / 2 ^ lastPlace x) ∨ lastPlace x = -1074) := by
  refine ⟨nearestEven_le_of_lt ?_, (le_div_lastPlace hx).imp_left fun h => le_nearestEven ?_⟩
  · exact_mod_cast div_lastPlace_lt hx
  · exact_mod_cast h

theorem lastPlace_neg (x : ℝ) : lastPlace (-x) = lastPlace x := by
  rw [lastPlace, abs_neg, lastPlace]

theorem nearest_neg (x : ℝ) : nearest (-x) = -nearest x := by
  rw [nearest, lastPlace_neg, nearestOn_neg, nearest]

/-- A number with 53 binary digits, none of them behind the place of 2^-1074. -/
def IsDouble (x : ℝ) : Prop := ∃ n v : ℤ, x = n * 2 ^ v ∧ |n| < 2 ^ 53 ∧ -1074 ≤ v

theorem isDouble_zero : IsDouble 0 := ⟨0, 0, by simp, by simp, by simp⟩

theorem nearest_of_isDouble {x : ℝ} (h : IsDouble x) : nearest x = x := by
  obtain ⟨n, v, rfl, hn, hv⟩ := h
  rcases eq_or_ne n 0 with rfl | hn0
  · simp [nearest, nearestOn, nearestEven]
  · refine nearestOn_of_multiple (max_le ?_ hv) n
    have hpos : 0 < |(n : ℝ) * 2 ^ v| := by positivity
    have hlt : |(n : ℝ) * 2 ^ v| < ((2 : ℕ) : ℝ) ^ (v + 53) := by
      rw [abs_mul, abs_of_pos (by positivity : (0 : ℝ) < 2 ^ v), Nat.cast_ofNat,
        zpow_add₀ two_ne_zero, mul_comm]
      have hcast : |(n : ℝ)| < 2 ^ (53 : ℤ) := by exact_mod_cast hn
      exact mul_lt_mul_of_pos_left hcast (by positivity)
    have hlog := (Int.lt_zpow_iff_log_lt one_lt_two hpos).mp hlt
    omega

@[simp] theorem nearest_zero : nearest 0 = 0 := nearest_of_isDouble isDouble_zero

theorem nearest_nonneg {x : ℝ} (h : 0 ≤ x) : 0 ≤ nearest x := by
  have hmono := monotone_nearestOn (lastPlace x) h
  rwa [show nearestOn (lastPlace x) 0 = 0 by simp [nearestOn, nearestEven]] at hmono

/-- Positive numbers are rounded in their order. -/
theorem nearest_le_nearest_of_pos {x y : ℝ} (hx : 0 < x) (hxy : x ≤ y) :
    nearest x ≤ nearest y := by
  have hy : 0 < y := hx.trans_le hxy
  have hlog : Int.log 2 |x| ≤ Int.log 2 |y| := by
    rw [abs_of_pos hx, abs_of_pos hy]
    exact Int.log_mono_right hx hxy
  have hplace : lastPlace x ≤ lastPlace y := max_le_max (by omega) le_rfl
  rcases hplace.eq_or_lt with heq | hlt
  · rw [nearest, nearest, heq]
    exact monotone_nearestOn _ hxy
  · -- the power of two at which the unit of `y` begins
    have hbegin : lastPlace y = Int.log 2 |y| - 52 := by
      simp only [lastPlace] at hlt ⊢
      omega
    have hbelow : x ≤ 1 * 2 ^ (lastPlace y + 52) := by
      have hself := Int.lt_zpow_succ_log_self one_lt_two |x|
      rw [abs_of_pos hx, Nat.cast_ofNat] at hself
      refine hself.le.trans ?_
      rw [one_mul]
      refine zpow_le_zpow_right₀ one_le_two ?_
      rw [abs_of_pos hx] at hlog
      simp only [lastPlace, abs_of_pos hx] at hlt ⊢
      omega
    have habove : 1 * 2 ^ (lastPlace y + 52) ≤ y := by
      have hself := Int.zpow_log_le_self one_lt_two hy
      rw [abs_of_pos hy] at hbegin
      rwa [hbegin, one_mul, sub_add_cancel, ← Nat.cast_ofNat]
    calc nearest x ≤ nearestOn (lastPlace x) ((1 : ℤ) * 2 ^ (lastPlace y + 52)) :=
          monotone_nearestOn _ (by exact_mod_cast hbelow)
      _ = (1 : ℤ) * 2 ^ (lastPlace y + 52) := nearestOn_of_multiple (by omega) 1
      _ = nearestOn (lastPlace y) ((1 : ℤ) * 2 ^ (lastPlace y + 52)) :=
          (nearestOn_of_multiple (by omega) 1).symm
      _ ≤ nearest y := monotone_nearestOn _ (by exact_mod_cast habove)

theorem monotone_nearest : Monotone nearest := by
  intro x y hxy
  rcases lt_or_ge 0 x with hx | hx
  · exact nearest_le_nearest_of_pos hx hxy
  · rcases lt_or_ge y 0 with hy | hy
    · have hneg := nearest_le_nearest_of_pos (neg_pos.mpr hy) (neg_le_neg hxy)
      rw [nearest_neg, nearest_neg] at hneg
      exact neg_le_neg_iff.mp hneg
    · have hnonpos := nearest_nonneg (neg_nonneg.mpr hx)
      rw [nearest_neg] at hnonpos
      exact (neg_nonneg.mp hnonpos).trans (nearest_nonneg hy)

/-! ## 4. Overflow -/

/-- A number out of the range of doubles is the infinity on its side. -/
noncomputable def overflow (x : ℝ) : EReal :=
  if 2 ^ 1024 ≤ x then ⊤ else if x ≤ -2 ^ 1024 then ⊥ else x

/-- The double, or the infinity, that stands for a number. -/
noncomputable def round : EReal → EReal
  | ⊥ => ⊥
  | ⊤ => ⊤
  | (x : ℝ) => overflow (nearest x)

theorem round_coe (x : ℝ) : round x = overflow (nearest x) := rfl

theorem overflow_of_abs_lt {x : ℝ} (h : |x| < 2 ^ 1024) : overflow x = x := by
  obtain ⟨hlow, hhigh⟩ := abs_lt.mp h
  rw [overflow, if_neg (not_le.mpr hhigh), if_neg (not_le.mpr hlow)]

theorem monotone_overflow : Monotone overflow := by
  intro x y hxy
  rcases le_or_gt (2 ^ 1024) y with hy | hy
  · rw [overflow, overflow, if_pos hy]
    exact le_top
  rcases le_or_gt x (-2 ^ 1024) with hx | hx
  · rw [overflow, if_neg (not_le.mpr (hxy.trans_lt hy)), if_pos hx]
    exact bot_le
  · rw [overflow_of_abs_lt (abs_lt.mpr ⟨hx, hxy.trans_lt hy⟩),
      overflow_of_abs_lt (abs_lt.mpr ⟨hx.trans_le hxy, hy⟩)]
    exact_mod_cast hxy

/-- **Rounding keeps the order.** -/
theorem monotone_round : Monotone round := by
  intro x y hxy
  induction x with
  | bot => exact bot_le
  | top => rw [top_le_iff.mp hxy]
  | coe x =>
    induction y with
    | bot => exact absurd hxy (by simp)
    | top => exact le_top
    | coe y => exact monotone_overflow (monotone_nearest (by exact_mod_cast hxy))

/-- **Rounding keeps the doubles.** -/
theorem round_of_isDouble {x : ℝ} (h : IsDouble x) (hx : |x| < 2 ^ 1024) : round x = x := by
  rw [round_coe, nearest_of_isDouble h, overflow_of_abs_lt hx]

end Motion.Double
