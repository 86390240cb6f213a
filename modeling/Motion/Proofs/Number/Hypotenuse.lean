/-
# The hypotenuse is a number

`Double.hypot` scales its legs, corrects the root of the sum of squares by the rounding errors of
the squares, and scales back.  Any of these steps could go wrong at the ends of the range: a square
that overflows, a correction that is the difference of two infinities, a quotient of two zeros.
None does, and the hypotenuse over two numbers is a number (`isNaN_hypot`), an infinity if it is out
of range.

The proof follows the computation with an interval for every value that occurs.  The intervals have
doubles as their ends, so rounding leads out of none of them (`between_of_round`), and no rounding
error has to be estimated.  Of two products that are added one may well be infinite; it is enough
that the other is not.
-/
import Motion.Proofs.Number.Quotients

namespace Motion.Double

open Float.Model (UnpackedFloat)
open Float.Model.UnpackedFloat (Sign pack unpack)

/-! ## 1. Intervals -/

variable {a b : Float} {x y low high : ℝ}

/-- The double stands for a number between two others. -/
def Between (a : Float) (low high : ℝ) : Prop := ∃ x : ℝ, value a = x ∧ low ≤ x ∧ x ≤ high

/-- The number is a double and in range. -/
def IsBound (x : ℝ) : Prop := IsDouble x ∧ |x| < (2 : ℕ) ^ 1024

theorem isBound_iff : IsBound x ↔ IsDouble x ∧ |x| < 2 ^ 1024 := by
  rw [IsBound, Nat.cast_ofNat]

theorem IsBound.round_eq (h : IsBound x) : round (x : ℝ) = x :=
  round_of_isDouble (isBound_iff.mp h).1 (isBound_iff.mp h).2

theorem isBound_zero : IsBound 0 := isBound_iff.mpr ⟨isDouble_zero, by simp⟩

theorem isBound_of_eq {n v : ℤ} (k : ℕ) (hx : x = n * 2 ^ v) (hn : |n| < 2 ^ k) (hk : k ≤ 53)
    (hlow : -1074 ≤ v) (hhigh : k + v ≤ 1024) : IsBound x := by
  refine isBound_iff.mpr ⟨⟨n, v, hx, hn.trans_le (pow_le_pow_right₀ one_le_two hk), hlow⟩, ?_⟩
  rw [hx, abs_mul, abs_of_pos (by positivity : (0 : ℝ) < 2 ^ v)]
  calc |(n : ℝ)| * 2 ^ v < 2 ^ k * 2 ^ v :=
        mul_lt_mul_of_pos_right (by exact_mod_cast hn) (by positivity)
    _ = 2 ^ (k + v) := by rw [zpow_add₀ two_ne_zero, zpow_natCast]
    _ ≤ 2 ^ ((1024 : ℕ) : ℤ) := zpow_le_zpow_right₀ one_le_two hhigh
    _ = 2 ^ 1024 := zpow_natCast 2 1024

theorem IsBound.neg (h : IsBound x) : IsBound (-x) := by
  obtain ⟨⟨n, v, rfl, hn, hv⟩, hx⟩ := h
  exact ⟨⟨-n, v, by push_cast; ring, by rwa [abs_neg], hv⟩, by rwa [abs_neg]⟩

theorem between_of_le (hlow : low ≤ value a) (hhigh : value a ≤ high) : Between a low high :=
  exists_real_of_between hlow hhigh

/-- Rounding does not lead out of an interval whose ends are doubles. -/
theorem between_of_round (ha : value a = round (x : ℝ)) (hlow : IsBound low) (hhigh : IsBound high)
    (h : low ≤ x ∧ x ≤ high) : Between a low high := by
  refine between_of_le ?_ ?_
  · rw [ha, ← hlow.round_eq]
    exact monotone_round (EReal.coe_le_coe_iff.mpr h.1)
  · rw [ha, ← hhigh.round_eq]
    exact monotone_round (EReal.coe_le_coe_iff.mpr h.2)

theorem isFinite_of_value (ha : value a = x) : a.isFinite := isFinite_iff_value.mpr ⟨x, ha⟩

theorem isNaN_of_value (ha : value a = x) : a.isNaN = false :=
  isNaN_of_isFinite (isFinite_of_value ha)

section Operations

variable (ha : value a = x) (hb : value b = y)
include ha hb

theorem between_add (hlow : IsBound low) (hhigh : IsBound high) (h : low ≤ x + y ∧ x + y ≤ high) :
    Between (a + b) low high := by
  refine between_of_round ?_ hlow hhigh h
  rw [(value_add (isNaN_of_value ha) (isNaN_of_value hb) (Or.inl (isFinite_of_value ha))).2, ha, hb,
    EReal.coe_add]

theorem between_sub (hlow : IsBound low) (hhigh : IsBound high) (h : low ≤ x - y ∧ x - y ≤ high) :
    Between (a - b) low high := by
  refine between_of_round ?_ hlow hhigh h
  rw [(value_sub (isNaN_of_value ha) (isNaN_of_value hb) (Or.inl (isFinite_of_value ha))).2, ha, hb,
    EReal.coe_sub]

theorem between_mul (hlow : IsBound low) (hhigh : IsBound high) (h : low ≤ x * y ∧ x * y ≤ high) :
    Between (a * b) low high := by
  refine between_of_round ?_ hlow hhigh h
  rw [(value_mul (isFinite_of_value ha) (isFinite_of_value hb)).2, ha, hb, EReal.coe_mul]

end Operations

theorem between_sqrt (ha : value a = x) (hnonneg : 0 ≤ x) (hlow : IsBound low)
    (hhigh : IsBound high) (h : low ≤ √x ∧ √x ≤ high) : Between (Float.sqrt a) low high :=
  between_of_round (value_sqrt ha hnonneg).2 hlow hhigh h

/-! ## 2. Numbers -/

/-- What is packed from an infinite float is an infinite double, and a number. -/
theorem infinite_of_unpacked {u : UnpackedFloat} {s : Sign} (h : u = .infinity s) :
    (Float.ofModel (.pack u)).isNaN = false ∧ (Float.ofModel (.pack u)).isFinite = false := by
  have hunpack : unpack .binary64 (pack .binary64 u) = .infinity s := by
    rw [h]
    exact unpack_pack (u := .infinity s) trivial trivial
  change (unpack .binary64 (pack .binary64 u)).isNaN = false ∧
    (unpack .binary64 (pack .binary64 u)).isFinite = false
  rw [hunpack]
  exact ⟨rfl, rfl⟩

/-- A number times a finite double that is not zero is a number. -/
theorem isNaN_mul (ha : a.isNaN = false) (hb : value b = y) (hne : y ≠ 0) :
    (a * b).isNaN = false := by
  rcases finite_or_infinity ha with hfinite | ⟨s, hs⟩
  · exact (value_mul hfinite (isFinite_of_value hb)).1
  · rcases zero_or_finite hb with ⟨s', -, rfl⟩ | ⟨s', m, e, hm, hu, -⟩
    · exact absurd rfl hne
    · have hmul : UnpackedFloat.mul .binary64 (unpacked a) (unpacked b) = .infinity (s * s') := by
        rw [hu, hs]
        rfl
      exact (infinite_of_unpacked hmul).1

/-- A number divided by a finite double that is not zero is a number. -/
theorem isNaN_div (ha : a.isNaN = false) (hb : value b = y) (hne : y ≠ 0) :
    (a / b).isNaN = false := by
  rcases finite_or_infinity ha with hfinite | ⟨s, hs⟩
  · obtain ⟨x, hx⟩ := isFinite_iff_value.mp hfinite
    exact (value_div hx hb hne).1
  · rcases zero_or_finite hb with ⟨s', -, rfl⟩ | ⟨s', m, e, hm, hu, -⟩
    · exact absurd rfl hne
    · have hdiv : UnpackedFloat.div .binary64 (unpacked a) (unpacked b) = .infinity (s / s') := by
        rw [hu, hs]
        rfl
      exact (infinite_of_unpacked hdiv).1

/-! ## 3. Magnitudes -/

/-- A quarter of the longest leg whose square is in range. -/
noncomputable def unit : ℝ := (2 : ℕ) ^ (509 : ℤ)

theorem unit_eq : unit = 2 ^ (509 : ℤ) := by
  rw [unit, Nat.cast_ofNat]

theorem unit_pos : 0 < unit := by
  rw [unit_eq]
  positivity

theorem isBound_zpow {v : ℤ} (hlow : -1074 ≤ v) (hhigh : v < 1024) : IsBound (2 ^ v) :=
  isBound_of_eq (n := 1) 1 (by norm_num) (by norm_num) (by norm_num) hlow (by push_cast; omega)

theorem isBound_one : IsBound 1 := by
  have hpower := isBound_zpow (v := 0) (by norm_num) (by norm_num)
  rwa [zpow_zero] at hpower

theorem isBound_mul_unit {n : ℕ} (hn : n < 2 ^ 53) : IsBound (n * unit) :=
  isBound_of_eq (n := n) 53 (by rw [unit_eq, Int.cast_natCast])
    (by rw [Nat.abs_cast]; exact_mod_cast hn) le_rfl (by norm_num) (by norm_num)

theorem isBound_mul_square {n : ℕ} (hn : n < 2 ^ 6) : IsBound (n * (unit * unit)) := by
  have hsquare : unit * unit = 2 ^ (1018 : ℤ) := by
    rw [unit_eq, ← zpow_add₀ two_ne_zero]
    rfl
  exact isBound_of_eq (n := n) 6 (by rw [hsquare]; rfl) (by rw [Nat.abs_cast]; exact_mod_cast hn)
    (by norm_num) (by norm_num) (by norm_num)

/-- The double is at most so many units either way. -/
def Within (a : Float) (n : ℕ) : Prop := ∃ x : ℝ, value a = x ∧ |x| ≤ n * unit

variable {m n : ℕ}

theorem Within.isFinite (h : Within a n) : a.isFinite := by
  obtain ⟨x, hx, -⟩ := h
  exact isFinite_of_value hx

theorem within_of_between (h : Between a (-(n * unit)) (n * unit)) : Within a n := by
  obtain ⟨x, hx, hlow, hhigh⟩ := h
  exact ⟨x, hx, abs_le.mpr ⟨hlow, hhigh⟩⟩

/-- A difference is as large as that of the values. -/
theorem within_sub (ha : value a = x) (hb : value b = y) (hn : n < 2 ^ 53)
    (h : |x - y| ≤ n * unit) : Within (a - b) n :=
  within_of_between
    (between_sub ha hb (isBound_mul_unit hn).neg (isBound_mul_unit hn) (abs_le.mp h))

theorem Within.sub (ha : Within a m) (hb : Within b n) (hn : m + n < 2 ^ 53) :
    Within (a - b) (m + n) := by
  obtain ⟨x, hx, hxm⟩ := ha
  obtain ⟨y, hy, hyn⟩ := hb
  refine within_sub hx hy hn ((abs_sub x y).trans ?_)
  push_cast
  linarith

/-- A multiple is as many times as large. -/
theorem Within.mul_natCast {k : ℕ} (ha : value a = (k : ℝ)) (hb : Within b n)
    (hn : k * n < 2 ^ 53) : Within (a * b) (k * n) := by
  obtain ⟨y, hy, hyn⟩ := hb
  refine within_of_between (between_mul ha hy (isBound_mul_unit hn).neg (isBound_mul_unit hn)
    (abs_le.mp ?_))
  rw [abs_mul, Nat.abs_cast]
  push_cast
  rw [mul_assoc]
  exact mul_le_mul_of_nonneg_left hyn (Nat.cast_nonneg k)

/-- A product of few units with few units is finite. -/
theorem Within.isFinite_mul (ha : Within a m) (hb : Within b n) (hn : m * n < 2 ^ 6) :
    (a * b).isFinite := by
  obtain ⟨x, hx, hxm⟩ := ha
  obtain ⟨y, hy, hyn⟩ := hb
  have hproduct : |x * y| ≤ (m * n : ℕ) * (unit * unit) := by
    have hu := unit_pos
    rw [abs_mul]
    push_cast
    calc |x| * |y| ≤ m * unit * (n * unit) :=
          mul_le_mul hxm hyn (abs_nonneg y) (by positivity)
      _ = m * n * (unit * unit) := by ring
  obtain ⟨z, hz, -⟩ := between_mul hx hy (isBound_mul_square hn).neg (isBound_mul_square hn)
    (abs_le.mp hproduct)
  exact isFinite_of_value hz

theorem value_two : value 2.0 = ((2 : ℕ) : ℝ) := by
  have hunpacked : value 2.0 = ((2 ^ 52 : ℕ) * (2 : ℕ) ^ (-51 : ℤ) : ℝ) := rfl
  rw [hunpacked]
  norm_num

theorem value_four : value 4.0 = ((4 : ℕ) : ℝ) := by
  have hunpacked : value 4.0 = ((2 ^ 52 : ℕ) * (2 : ℕ) ^ (-50 : ℤ) : ℝ) := rfl
  rw [hunpacked]
  norm_num

/-! ## 4. Legs in range -/

theorem isDouble_of_value (ha : value a = x) : IsDouble x := by
  rcases zero_or_finite ha with ⟨s, -, rfl⟩ | ⟨s, m, e, hm, hu, rfl⟩
  · exact isDouble_zero
  · exact isDouble_of_rounded (hu ▸ rounded_unpacked a)

/-- Doubling loses nothing in range. -/
theorem value_double (hb : value b = y) (hy : 0 ≤ y) (hy' : y ≤ 4 * unit) :
    value (2.0 * b) = (2 * y : ℝ) := by
  have hu := unit_pos
  obtain ⟨n, v, hn, habs, hv⟩ := isDouble_of_value hb
  have hdouble : IsDouble (2 * y) :=
    ⟨n, v + 1, by rw [hn, zpow_add_one₀ two_ne_zero]; ring, habs, by omega⟩
  have hrange : |2 * y| < 2 ^ 1024 := by
    refine lt_of_le_of_lt ?_ (isBound_iff.mp (isBound_mul_unit (n := 8) (by norm_num))).2
    rw [abs_of_nonneg (by positivity), abs_of_pos (by positivity), Nat.cast_ofNat]
    linarith
  rw [(value_mul (isFinite_of_value value_two) (isFinite_of_value hb)).2, value_two, hb,
    ← EReal.coe_mul]
  exact round_of_isDouble hdouble hrange

/-- The root of the sum of squares is positive and in range. -/
theorem between_root (ha : value a = x) (hb : value b = y) (hlow : 2 ^ (-474 : ℤ) ≤ x)
    (hx : x ≤ 4 * unit) (hy : 0 ≤ y) (hyx : y ≤ x) :
    Between (Float.sqrt (a * a + b * b)) (2 ^ (-474 : ℤ)) (6 * unit) := by
  have hu := unit_pos
  have hpow : (2 : ℝ) ^ (-474 : ℤ) * 2 ^ (-474 : ℤ) = 2 ^ (-948 : ℤ) := by
    rw [← zpow_add₀ two_ne_zero]
    rfl
  have hpos : (0 : ℝ) < 2 ^ (-474 : ℤ) := by positivity
  have hleast : IsBound (2 ^ (-948 : ℤ)) := isBound_zpow (by norm_num) (by norm_num)
  have hx2 : 2 ^ (-948 : ℤ) ≤ x * x := hpow ▸ mul_le_mul hlow hlow hpos.le (by linarith)
  obtain ⟨p, hp, hp₁, hp₂⟩ := between_mul ha ha hleast
    (isBound_mul_square (n := 16) (by norm_num)) ⟨hx2, by push_cast; nlinarith⟩
  obtain ⟨q, hq, hq₁, hq₂⟩ := between_mul hb hb (isBound_mul_square (n := 0) (by norm_num))
    (isBound_mul_square (n := 16) (by norm_num)) ⟨by push_cast; nlinarith, by push_cast; nlinarith⟩
  push_cast at hp₂ hq₁ hq₂
  obtain ⟨r, hr, hr₁, hr₂⟩ := between_add hp hq hleast
    (isBound_mul_square (n := 32) (by norm_num)) ⟨by linarith, by push_cast; linarith⟩
  push_cast at hr₂
  refine between_sqrt hr (hr₁.trans' (by positivity)) (isBound_zpow (by norm_num) (by norm_num))
    ?_ ⟨?_, ?_⟩
  · exact_mod_cast isBound_mul_unit (n := 6) (by norm_num)
  · exact Real.le_sqrt_of_sq_le (by rw [sq, hpow]; exact hr₁)
  · exact Real.sqrt_le_iff.mpr ⟨by positivity, by nlinarith⟩

variable {h : Float} {z : ℝ}

/-- The correction, where the root is not longer than twice the shorter leg: what is multiplied with
the longer leg is small. -/
theorem isNaN_excess_near (ha : value a = x) (hb : value b = y) (hh : value h = z)
    (hx : x ≤ 4 * unit) (hy : 0 ≤ y) (hyx : y ≤ x) (hz : 0 ≤ z) (hz' : z ≤ 6 * unit)
    (hle : z ≤ 2 * y) :
    (a * (2.0 * (h - b) - a) + (h - b - 2.0 * (a - b)) * (h - b)).isNaN = false := by
  have hd : Within (h - b) 4 := within_sub hh hb (by norm_num)
    (abs_le.mpr ⟨by push_cast; linarith, by push_cast; linarith⟩)
  have hk : Within (a - b) 4 := within_sub ha hb (by norm_num)
    (abs_le.mpr ⟨by push_cast; linarith, by push_cast; linarith⟩)
  have ha' : Within a 4 := ⟨x, ha, abs_le.mpr ⟨by push_cast; linarith, by push_cast; linarith⟩⟩
  have hfirst : (a * (2.0 * (h - b) - a)).isFinite :=
    ha'.isFinite_mul ((hd.mul_natCast value_two (by norm_num)).sub ha' (by norm_num)) (by norm_num)
  have hsecond : (h - b - 2.0 * (a - b)).isFinite :=
    (hd.sub (hk.mul_natCast value_two (by norm_num)) (by norm_num)).isFinite
  exact (value_add (isNaN_of_isFinite hfirst) (value_mul hsecond hd.isFinite).1
    (Or.inl hfirst)).1

/-- The correction, where the root is longer than that: the difference of the longer leg and twice
the shorter one is small. -/
theorem isNaN_excess_far (ha : value a = x) (hb : value b = y) (hh : value h = z)
    (hx : x ≤ 4 * unit) (hy : 0 ≤ y) (hyx : y ≤ x) (hz : 0 ≤ z) (hz' : z ≤ 6 * unit) :
    (2.0 * (h - a) * (a - 2.0 * b) + ((4.0 * (h - a) - b) * b + (h - a) * (h - a))).isNaN =
      false := by
  have hd : Within (h - a) 6 := within_sub hh ha (by norm_num)
    (abs_le.mpr ⟨by push_cast; linarith, by push_cast; linarith⟩)
  have hdouble := value_double hb hy (hyx.trans hx)
  have hk : Within (a - 2.0 * b) 4 := within_sub ha hdouble (by norm_num)
    (abs_le.mpr ⟨by push_cast; linarith, by push_cast; linarith⟩)
  have hb' : Within b 4 := ⟨y, hb, abs_le.mpr ⟨by push_cast; linarith, by push_cast; linarith⟩⟩
  have hfirst : (2.0 * (h - a) * (a - 2.0 * b)).isFinite :=
    (hd.mul_natCast value_two (by norm_num)).isFinite_mul hk (by norm_num)
  have hsquare : ((h - a) * (h - a)).isFinite := hd.isFinite_mul hd (by norm_num)
  have hsecond : (4.0 * (h - a) - b).isFinite :=
    ((hd.mul_natCast value_four (by norm_num)).sub hb' (by norm_num)).isFinite
  have hrest := (value_add (value_mul hsecond hb'.isFinite).1 (isNaN_of_isFinite hsquare)
    (Or.inr hsquare)).1
  exact (value_add (isNaN_of_isFinite hfirst) hrest (Or.inl hfirst)).1

/-- **The hypotenuse over legs in range is a number.** -/
theorem isNaN_hypotInRange (ha : value a = x) (hb : value b = y) (hlow : 2 ^ (-474 : ℤ) ≤ x)
    (hx : x ≤ 4 * unit) (hy : 0 ≤ y) (hyx : y ≤ x) : (hypotInRange a b).isNaN = false := by
  obtain ⟨z, hh, hz, hz'⟩ := between_root ha hb hlow hx hy hyx
  have hzpos : 0 < z := hz.trans_lt' (by positivity)
  unfold hypotInRange
  generalize Float.sqrt (a * a + b * b) = h at hh
  -- twice the root is finite and not zero, so dividing by it does no harm
  obtain ⟨w, hw, hw₁, -⟩ := between_mul value_two hh
    (isBound_zpow (v := -474) (by norm_num) (by norm_num))
    (isBound_mul_unit (n := 12) (by norm_num)) ⟨by push_cast; linarith, by push_cast; linarith⟩
  have hwne : w ≠ 0 := (hw₁.trans_lt' (by positivity)).ne'
  have hcorrected : ∀ {excess : Float}, excess.isNaN = false →
      (h - excess / (2.0 * h)).isNaN = false := fun hexcess =>
    (value_sub (isNaN_of_value hh) (isNaN_div hexcess hw hwne) (Or.inl (isFinite_of_value hh))).1
  dsimp only
  split_ifs with hle
  · have hdouble := value_double hb hy (hyx.trans hx)
    rw [le_iff_value (isNaN_of_value hh) (isNaN_of_value hdouble), hh, hdouble] at hle
    exact hcorrected
      (isNaN_excess_near ha hb hh hx hy hyx hzpos.le hz' (EReal.coe_le_coe_iff.mp hle))
  · exact hcorrected (isNaN_excess_far ha hb hh hx hy hyx hzpos.le hz')

/-! ## 5. All legs -/

/-- A positive double is not less than the least one. -/
theorem le_of_value_pos (ha : value a = x) (hx : 0 < x) : 2 ^ (-1074 : ℤ) ≤ x := by
  rcases zero_or_finite ha with ⟨s, -, rfl⟩ | ⟨s, m, e, hm, hu, rfl⟩
  · exact absurd hx (lt_irrefl 0)
  · have hrounded : Rounded (unpacked a) := rounded_unpacked a
    rw [hu] at hrounded
    have hmantissa : (1 : ℝ) ≤ m := Nat.one_le_cast.mpr hm
    calc (2 : ℝ) ^ (-1074 : ℤ) ≤ 2 ^ e := zpow_le_zpow_right₀ one_le_two hrounded.2.1
      _ ≤ m * 2 ^ e := le_mul_of_one_le_left (by positivity) hmantissa
      _ = signed s (m * 2 ^ e) := by
        rw [← abs_of_pos hx, abs_signed, abs_of_pos (by positivity)]

theorem two_zpow_511 : (2 : ℝ) ^ (511 : ℤ) = 4 * unit := by
  rw [unit_eq, show (511 : ℤ) = 2 + 509 by norm_num, zpow_add₀ two_ne_zero]
  norm_num

/-- Legs that a power of two brings into range. -/
theorem isNaN_scaled (ha : value a = x) (hb : value b = y) (hy : 0 ≤ y) (hyx : y ≤ x)
    {c c' : Float} {k k' u v : ℤ} (hc : value c = ((2 : ℝ) ^ k : ℝ))
    (hc' : value c' = ((2 : ℝ) ^ k' : ℝ)) (hxlow : 2 ^ u ≤ x) (hxhigh : x ≤ 2 ^ v)
    (hlow : -474 ≤ u + k) (hhigh : v + k ≤ 511) :
    (hypotInRange (a * c) (b * c) * c').isNaN = false := by
  have hpos : (0 : ℝ) < 2 ^ k := by positivity
  have hle : y * 2 ^ k ≤ x * 2 ^ k := mul_le_mul_of_nonneg_right hyx hpos.le
  have hxk : (2 : ℝ) ^ (-474 : ℤ) ≤ x * 2 ^ k ∧ x * 2 ^ k ≤ 2 ^ (511 : ℤ) := by
    refine ⟨(zpow_le_zpow_right₀ one_le_two hlow).trans ?_,
      le_trans ?_ (zpow_le_zpow_right₀ one_le_two hhigh)⟩ <;> rw [zpow_add₀ two_ne_zero]
    · exact mul_le_mul_of_nonneg_right hxlow hpos.le
    · exact mul_le_mul_of_nonneg_right hxhigh hpos.le
  obtain ⟨x', hx', hx₁, hx₂⟩ := between_mul ha hc (isBound_zpow (by norm_num) (by norm_num))
    (isBound_zpow (by norm_num) (by norm_num)) hxk
  obtain ⟨y', hy', hy₁, -⟩ := between_mul hb hc (isBound_mul_unit (n := 0) (by norm_num))
    (isBound_zpow (by norm_num) (by norm_num))
    ⟨by rw [Nat.cast_zero, zero_mul]; positivity, hle.trans hxk.2⟩
  -- rounding keeps the order of the legs
  have hyx' : y' ≤ x' := by
    rw [← EReal.coe_le_coe_iff, ← hx', ← hy',
      (value_mul (isFinite_of_value ha) (isFinite_of_value hc)).2,
      (value_mul (isFinite_of_value hb) (isFinite_of_value hc)).2, ha, hb, hc, ← EReal.coe_mul,
      ← EReal.coe_mul]
    exact monotone_round (EReal.coe_le_coe_iff.mpr hle)
  rw [Nat.cast_zero, zero_mul] at hy₁
  rw [two_zpow_511] at hx₂
  exact isNaN_mul (isNaN_hypotInRange hx' hy' hx₁ hx₂ hy₁ hyx') hc' (by positivity)

theorem abs_lt_of_value (ha : value a = x) : |x| < 2 ^ (1024 : ℤ) := by
  obtain ⟨hlow, hhigh⟩ := abs_le_largest (isFinite_of_value ha)
  rw [ha, value_largest] at hlow hhigh
  rw [← EReal.coe_neg] at hlow
  refine lt_of_le_of_lt
    (abs_le.mpr ⟨EReal.coe_le_coe_iff.mp hlow, EReal.coe_le_coe_iff.mp hhigh⟩) ?_
  exact_mod_cast magnitude_lt (m := 2 ^ 53 - 1) (by norm_num) le_rfl

theorem value_ofBits_zpow : value (Float.ofBits 0x1A70000000000000) = ((2 : ℝ) ^ (-600 : ℤ) : ℝ) ∧
    value (Float.ofBits 0x6570000000000000) = ((2 : ℝ) ^ (600 : ℤ) : ℝ) ∧
    value (Float.ofBits 0x3C90000000000000) = ((2 : ℝ) ^ (-54 : ℤ) : ℝ) ∧
    value (Float.ofBits 0x5FE0000000000000) = ((2 : ℝ) ^ (511 : ℤ) : ℝ) ∧
    value (Float.ofBits 0x2340000000000000) = ((2 : ℝ) ^ (-459 : ℤ) : ℝ) := by
  have hpow : ∀ k : ℤ, ((2 ^ 52 : ℕ) * (2 : ℕ) ^ (k - 52) : ℝ) = 2 ^ k := by
    intro k
    rw [Nat.cast_pow, Nat.cast_ofNat, ← zpow_natCast, ← zpow_add₀ two_ne_zero]
    congr 1
    push_cast
    ring
  refine ⟨?_, ?_, ?_, ?_, ?_⟩ <;> rw [← hpow] <;> rfl

theorem isNaN_hypotOrdered (ha : value a = x) (hb : value b = y) (hy : 0 ≤ y) (hyx : y ≤ x) :
    (hypotOrdered a b).isNaN = false := by
  obtain ⟨hdown, hup, htiny, hlarge, hsmall⟩ := value_ofBits_zpow
  have han := isNaN_of_value ha
  have hbn := isNaN_of_value hb
  unfold hypotOrdered
  generalize Float.ofBits 0x1A70000000000000 = down at hdown
  generalize Float.ofBits 0x6570000000000000 = up at hup
  generalize Float.ofBits 0x3C90000000000000 = tiny at htiny
  generalize Float.ofBits 0x5FE0000000000000 = large at hlarge
  generalize Float.ofBits 0x2340000000000000 = small at hsmall
  dsimp only
  split_ifs with hnothing hlong hshort
  · exact (value_add han hbn (Or.inl (isFinite_of_value ha))).1
  · rw [lt_iff_value (isNaN_of_value hlarge) han, hlarge, ha, EReal.coe_lt_coe_iff] at hlong
    have hx := (abs_lt.mp (abs_lt_of_value ha)).2
    exact isNaN_scaled ha hb hy hyx hdown hup hlong.le hx.le (by norm_num) (by norm_num)
  · rw [lt_iff_value hbn (isNaN_of_value hsmall), hsmall, hb, EReal.coe_lt_coe_iff] at hshort
    -- the longer leg is not much longer, or the shorter one would add nothing to it
    have hless : ∀ {low : ℝ}, IsBound low → low ≤ x * 2 ^ (-54 : ℤ) → low < y := by
      intro low hbound hle
      obtain ⟨hprod, hvalue⟩ := value_mul (isFinite_of_value ha) (isFinite_of_value htiny)
      rw [le_iff_value hbn hprod, hb, hvalue, ha, htiny, ← EReal.coe_mul, not_le] at hnothing
      refine EReal.coe_lt_coe_iff.mp (lt_of_le_of_lt ?_ hnothing)
      rw [← hbound.round_eq]
      exact monotone_round (EReal.coe_le_coe_iff.mpr hle)
    have hpos : 0 < x := by
      have hzero := hless (isBound_mul_unit (n := 0) (by norm_num))
        (by rw [Nat.cast_zero, zero_mul]; exact mul_nonneg (hy.trans hyx) (by positivity))
      rw [Nat.cast_zero, zero_mul] at hzero
      exact hzero.trans_le hyx
    have hbelow : x ≤ 2 ^ (-405 : ℤ) := by
      by_contra hlt
      refine absurd (hless (isBound_zpow (v := -459) (by norm_num) (by norm_num)) ?_) hshort.not_gt
      rw [show (-459 : ℤ) = -405 + -54 by norm_num, zpow_add₀ two_ne_zero]
      exact mul_le_mul_of_nonneg_right (le_of_not_ge hlt) (by positivity)
    exact isNaN_scaled ha hb hy hyx hup hdown (le_of_value_pos ha hpos) hbelow (by norm_num)
      (by norm_num)
  · rw [lt_iff_value (isNaN_of_value hlarge) han, hlarge, ha, EReal.coe_lt_coe_iff, not_lt,
      two_zpow_511] at hlong
    rw [lt_iff_value hbn (isNaN_of_value hsmall), hsmall, hb, EReal.coe_lt_coe_iff,
      not_lt] at hshort
    refine isNaN_hypotInRange ha hb ?_ hlong hy hyx
    exact (zpow_le_zpow_right₀ one_le_two (by norm_num)).trans (hshort.trans hyx)

theorem unpacked_abs (a : Float) : unpacked a.abs = (unpacked a).abs := by
  obtain ⟨hrounded, hrange⟩ := rounded_unpack a.toModel.toBits.toBitVec
  change Rounded (unpacked a) at hrounded
  change InRange (unpacked a) at hrange
  change unpack .binary64 (pack .binary64 (unpacked a).abs) = (unpacked a).abs
  cases hu : unpacked a with
  | finite s m e hm =>
    rw [hu] at hrounded hrange
    exact unpack_pack (u := .finite .positive m e hm) hrounded hrange
  | infinity => exact unpack_pack (u := .infinity .positive) trivial trivial
  | notANumber => exact unpack_pack (u := .notANumber) trivial trivial
  | zero => exact unpack_pack (u := .zero .positive) trivial trivial

/-- The absolute value of a number is infinite or has a value that is not negative. -/
theorem isInf_or_value_abs (ha : a.isNaN = false) :
    a.abs.isInf ∨ ∃ x : ℝ, value a.abs = x ∧ 0 ≤ x := by
  rcases finite_or_infinity ha with hfinite | ⟨s, hs⟩
  · right
    obtain ⟨x, hx⟩ := (isFinite_iff_unpackedValue (unpacked a)).mp hfinite
    rw [value, unpacked_abs]
    rcases zero_or_finite hx with ⟨s, hu, -⟩ | ⟨s, m, e, hm, hu, -⟩ <;> rw [hu]
    · exact ⟨0, rfl, le_rfl⟩
    · exact ⟨m * 2 ^ e, rfl, by positivity⟩
  · left
    change (unpacked a.abs).isInf = true
    rw [unpacked_abs, hs]
    rfl

/-- **The hypotenuse over two numbers is a number.** -/
theorem isNaN_hypot (ha : a.isNaN = false) (hb : b.isNaN = false) : (hypot a b).isNaN = false := by
  have habs : (!(a.abs.isInf || b.abs.isInf)) →
      (∃ x : ℝ, value a.abs = x ∧ 0 ≤ x) ∧ ∃ y : ℝ, value b.abs = y ∧ 0 ≤ y := by
    rw [Bool.not_or, Bool.and_eq_true, Bool.not_eq_true', Bool.not_eq_true']
    rintro ⟨hainf, hbinf⟩
    exact ⟨(isInf_or_value_abs ha).resolve_left (by simp [hainf]),
      (isInf_or_value_abs hb).resolve_left (by simp [hbinf])⟩
  unfold hypot
  dsimp only
  split_ifs with hinf hnan hlt
  · rfl
  all_goals
    obtain ⟨⟨x, hx, hx0⟩, y, hy, hy0⟩ := habs (by simpa using hinf)
    have hxn := isNaN_of_value hx
    have hyn := isNaN_of_value hy
  · rw [hxn, hyn] at hnan
    exact absurd hnan Bool.false_ne_true
  · rw [lt_iff_value hxn hyn, hx, hy, EReal.coe_lt_coe_iff] at hlt
    exact isNaN_hypotOrdered hy hx hx0 hlt.le
  · rw [lt_iff_value hxn hyn, hx, hy, EReal.coe_lt_coe_iff, not_lt] at hlt
    exact isNaN_hypotOrdered hx hy hy0 hlt

end Motion.Double
