/-
# Chords within a tolerance

An arc is drawn as chords, and the number of its chords is chosen for a tolerance
(`Segment.stepsWithin`).  This module says in exact arithmetic how far the chords are from the arc,
and when that is no more than the tolerance.

A chord over the angle `2 φ` of a circle is `radius * (1 - cos φ)` away from its arc: the middle of
the arc is that far from every point of the chord, and no point of the arc is further away than
that from all of the chord (`chordsWithin_iff`).  For more than half a turn this is more than the
radius, and for a whole turn, where the chord is a point, it is the diameter.

| tolerance            | chords                      | within the tolerance   |
|----------------------|-----------------------------|------------------------|
| less than the radius | as many as the formula says | always, if not cut off |
| the radius or more   | one                         | if its chord is        |

In the second row nothing looks at the sweep, so an arc of more than half a turn may be drawn by a
chord that is too far away (`three_quarters_in_one_chord`).  That is the only case
(`chords_within_tolerance_iff`).
-/
import Motion.Proofs.Toolpath.Detail
import Motion.Proofs.Toolpath.Travel
import Motion.Toolpath.Sampling

namespace Motion.Exact

/-! ## 1. A chord and its arc -/

/-- How far a chord over twice an angle is from its arc. -/
noncomputable def sagitta (radius angle : ℝ) : ℝ := radius * (1 - Real.cos angle)

/-- The point that divides the way from one position to another. -/
def between (p q : Point ℝ) (t : ℝ) : Point ℝ :=
  ⟨p.x + t * (q.x - p.x), p.y + t * (q.y - p.y), p.z + t * (q.z - p.z)⟩

theorem sagitta_abs (radius angle : ℝ) : sagitta radius |angle| = sagitta radius angle := by
  rw [sagitta, Real.cos_abs, sagitta]

/-- **A point of an arc and a point of its chord.**  The chord reaches the angle `φ` to both sides
of the middle; the point of the arc is at the angle `θ` from there, and the point of the chord is
the part `s` of half the chord away. -/
theorem span_between {a : Arc ℝ} (hradius : 0 ≤ a.radius) (middle φ θ s : ℝ) :
    span (pointAt a (middle + θ))
        (between (pointAt a (middle - φ)) (pointAt a (middle + φ)) ((1 + s) / 2)) =
      a.radius * √((Real.cos θ - Real.cos φ) ^ 2 + (Real.sin θ - s * Real.sin φ) ^ 2) := by
  have hcircle := Real.sin_sq_add_cos_sq middle
  have hscale (x : ℝ) : a.radius * √x = √(a.radius ^ 2 * x) := by
    rw [Real.sqrt_mul (sq_nonneg _), Real.sqrt_sq hradius]
  rw [hscale]
  refine congrArg Real.sqrt ?_
  simp only [pointAt_eq, between, Real.cos_add, Real.cos_sub, Real.sin_add, Real.sin_sub]
  linear_combination
    a.radius ^ 2 * ((Real.cos θ - Real.cos φ) ^ 2 + (Real.sin θ - s * Real.sin φ) ^ 2) * hcircle

/-- The middle of an arc is as far as that from every point of its chord. -/
theorem sagitta_le_span {a : Arc ℝ} (hradius : 0 ≤ a.radius) (middle φ t : ℝ) :
    sagitta a.radius φ ≤
      span (pointAt a middle) (between (pointAt a (middle - φ)) (pointAt a (middle + φ)) t) := by
  have hspan := span_between hradius middle φ 0 (2 * t - 1)
  have hpart : (1 + (2 * t - 1)) / 2 = t := by ring
  rw [add_zero, hpart] at hspan
  rw [hspan, Real.cos_zero, sagitta]
  refine mul_le_mul_of_nonneg_left (Real.le_sqrt_of_sq_le ?_) hradius
  exact le_add_of_nonneg_right (sq_nonneg _)

/-- The half angles of a point of the arc and of the end of its chord. -/
theorem sin_sq_le_sin_sq {a b : ℝ} (hab : |a| ≤ |b|) (hb : |b| ≤ Real.pi / 2) :
    Real.cos b ≤ Real.cos a ∧ Real.sin a ^ 2 ≤ Real.sin b ^ 2 := by
  have hcos : Real.cos b ≤ Real.cos a := by
    rw [← Real.cos_abs a, ← Real.cos_abs b]
    exact Real.cos_le_cos_of_nonneg_of_le_pi (abs_nonneg a) (by linarith [Real.pi_pos]) hab
  have hnonneg : 0 ≤ Real.cos b := Real.cos_nonneg_of_mem_Icc (abs_le.mp hb)
  refine ⟨hcos, ?_⟩
  rw [Real.sin_sq, Real.sin_sq]
  exact sub_le_sub_left (pow_le_pow_left₀ hnonneg hcos 2) 1

/-- **No point of an arc is further than that from all of its chord.**  The point of the chord that
does divides it as the sines of the half angles do; it need not be the nearest one. -/
theorem exists_span_le_sagitta {a : Arc ℝ} (hradius : 0 ≤ a.radius) (middle : ℝ) {φ θ : ℝ}
    (hθ : |θ| ≤ |φ|) (hφ : |φ| ≤ Real.pi) :
    ∃ t ∈ Set.Icc (0 : ℝ) 1,
      span (pointAt a (middle + θ))
          (between (pointAt a (middle - φ)) (pointAt a (middle + φ)) t) ≤ sagitta a.radius φ := by
  obtain ⟨u, rfl⟩ : ∃ u, θ = 2 * u := ⟨θ / 2, by ring⟩
  obtain ⟨v, rfl⟩ : ∃ v, φ = 2 * v := ⟨φ / 2, by ring⟩
  have htwo (x : ℝ) : |2 * x| = 2 * |x| := by rw [abs_mul, abs_two]
  rw [htwo] at hθ hφ
  rw [htwo] at hθ
  obtain ⟨hcos, hsin⟩ := sin_sq_le_sin_sq (a := u) (b := v) (by linarith) (by linarith)
  have hnonneg : 0 ≤ Real.cos v := Real.cos_nonneg_of_mem_Icc (abs_le.mp (by linarith))
  have hle : |Real.sin u| ≤ |Real.sin v| := sq_le_sq.mp hsin
  set s := Real.sin u / Real.sin v with hs
  have hbound : |s| ≤ 1 := by
    rw [hs, abs_div]
    exact div_le_one_of_le₀ hle (abs_nonneg _)
  have hmul : s * Real.sin v = Real.sin u := by
    rcases eq_or_ne (Real.sin v) 0 with hzero | hne
    · rw [hzero, abs_zero, abs_nonpos_iff] at hle
      rw [hzero, hle, mul_zero]
    · exact div_mul_cancel₀ _ hne
  obtain ⟨hlow, hhigh⟩ := abs_le.mp hbound
  refine ⟨(1 + s) / 2, ⟨by linarith, by linarith⟩, ?_⟩
  rw [span_between hradius, sagitta]
  refine mul_le_mul_of_nonneg_left (Real.sqrt_le_iff.mpr ⟨?_, ?_⟩) hradius
  · exact sub_nonneg.mpr (Real.cos_le_one _)
  · -- with everything in sines and cosines of the half angles, the two sides differ by a product
    have hdifference : (1 - Real.cos (2 * v)) ^ 2 -
        ((Real.cos (2 * u) - Real.cos (2 * v)) ^ 2 +
          (Real.sin (2 * u) - s * Real.sin (2 * v)) ^ 2) =
        4 * (Real.sin u ^ 2 *
          (1 - Real.cos v ^ 2 + 2 * Real.cos v * (Real.cos u - Real.cos v))) := by
      have hchord : s * Real.sin (2 * v) = 2 * Real.sin u * Real.cos v := by
        rw [Real.sin_two_mul, ← hmul]
        ring
      rw [hchord, Real.sin_two_mul, Real.cos_two_mul, Real.cos_two_mul]
      linear_combination (8 * Real.cos v ^ 2 - 4 * Real.cos u ^ 2 - 4) * Real.sin_sq_add_cos_sq u
    have hproduct : 0 ≤ 1 - Real.cos v ^ 2 + 2 * Real.cos v * (Real.cos u - Real.cos v) := by
      have hone := Real.cos_sq_le_one v
      have hmore := mul_nonneg (mul_nonneg zero_le_two hnonneg) (sub_nonneg.mpr hcos)
      linarith
    have hpos := mul_nonneg (sq_nonneg (Real.sin u)) hproduct
    linarith

/-! ## 2. The chords of a drawn arc -/

/-- The angle from the start of an arc to its end, exactly. -/
noncomputable abbrev sweep (a : Arc ℝ) : ℝ := @Arc.sweep ℝ scalar a

/-- The vertices of an arc in equal steps, exactly. -/
noncomputable abbrev vertices (a : Arc ℝ) (n : ℕ) : List (Point ℝ) := @Arc.vertices ℝ scalar a n

/-- The chords of an arc in `n` equal steps are within a distance of it: so far from every point of
the arc there is a point of the chord of its step. -/
def ChordsWithin (a : Arc ℝ) (n : ℕ) (d : ℝ) : Prop :=
  ∀ (k : ℕ) (p q : Point ℝ), (vertices a n)[k]? = some p → (vertices a n)[k + 1]? = some q →
    ∀ s ∈ Set.Icc (0 : ℝ) 1, ∃ t ∈ Set.Icc (0 : ℝ) 1,
      span (pointAt a (a.startAngle + sweep a * ((k + s) / n))) (between p q t) ≤ d

theorem getElem?_vertices_eq_some {a : Arc ℝ} {n k : ℕ} (hn : 0 < n) {p : Point ℝ} :
    (vertices a n)[k]? = some p ↔
      k ≤ n ∧ pointAt a (a.startAngle + sweep a * (k / n)) = p :=
  @Arc.getElem?_vertices_eq_some ℝ scalar _ _ a hn p

/-- Half the angle of a step. -/
noncomputable def halfStep (a : Arc ℝ) (n : ℕ) : ℝ := sweep a / (2 * n : ℕ)

/-- The angle in the middle of a step. -/
noncomputable def middle (a : Arc ℝ) (n k : ℕ) : ℝ :=
  a.startAngle + (2 * k + 1 : ℕ) * halfStep a n

/-- The angle of a part of a step, seen from the middle of the step. -/
theorem angle_eq_middle_add (a : Arc ℝ) {n : ℕ} (hn : 0 < n) (k : ℕ) (s : ℝ) :
    a.startAngle + sweep a * ((k + s) / n) = middle a n k + (2 * s - 1) * halfStep a n := by
  have hne : (n : ℝ) ≠ 0 := Nat.cast_ne_zero.mpr hn.ne'
  rw [middle, halfStep]
  push_cast
  field_simp
  ring

theorem angle_start (a : Arc ℝ) {n : ℕ} (hn : 0 < n) (k : ℕ) :
    a.startAngle + sweep a * (k / n) = middle a n k - halfStep a n := by
  have hangle := angle_eq_middle_add a hn k 0
  rw [add_zero] at hangle
  rw [hangle]
  ring

theorem angle_end (a : Arc ℝ) {n : ℕ} (hn : 0 < n) (k : ℕ) :
    a.startAngle + sweep a * ((k + 1 : ℕ) / n) = middle a n k + halfStep a n := by
  rw [Nat.cast_add_one, angle_eq_middle_add a hn k 1]
  ring

/-- The chords of a drawn arc, each seen from the middle of its step. -/
theorem chordsWithin_iff_forall {a : Arc ℝ} {n : ℕ} (hn : 0 < n) (d : ℝ) :
    ChordsWithin a n d ↔
      ∀ k < n, ∀ s ∈ Set.Icc (0 : ℝ) 1, ∃ t ∈ Set.Icc (0 : ℝ) 1,
        span (pointAt a (middle a n k + (2 * s - 1) * halfStep a n))
          (between (pointAt a (middle a n k - halfStep a n))
            (pointAt a (middle a n k + halfStep a n)) t) ≤ d := by
  simp only [ChordsWithin, getElem?_vertices_eq_some hn, angle_eq_middle_add a hn]
  constructor
  · intro h k hk s hs
    rw [← angle_start a hn, ← angle_end a hn]
    exact h k _ _ ⟨hk.le, rfl⟩ ⟨hk, rfl⟩ s hs
  · rintro h k p q ⟨-, rfl⟩ ⟨hk, rfl⟩ s hs
    rw [angle_start a hn, angle_end a hn]
    exact h k hk s hs

/-- **How far the chords of a drawn arc are from it**, as long as none is over more than a turn. -/
theorem chordsWithin_iff {a : Arc ℝ} (hradius : 0 ≤ a.radius) {n : ℕ} (hn : 0 < n)
    (hturn : |sweep a| / (2 * n) ≤ Real.pi) (d : ℝ) :
    ChordsWithin a n d ↔ sagitta a.radius (|sweep a| / (2 * n)) ≤ d := by
  have hstep : |halfStep a n| = |sweep a| / (2 * n) := by
    rw [halfStep, abs_div, Nat.abs_cast, Nat.cast_mul, Nat.cast_two]
  rw [chordsWithin_iff_forall hn, ← hstep, sagitta_abs]
  rw [← hstep] at hturn
  constructor
  · intro h
    obtain ⟨t, -, hspan⟩ := h 0 hn (1 / 2) ⟨by norm_num, by norm_num⟩
    have hzero : (2 * (1 / 2) - 1) * halfStep a n = 0 := by ring
    rw [hzero, add_zero] at hspan
    exact (sagitta_le_span hradius _ _ t).trans hspan
  · intro h k _ s hs
    have hpart : |(2 * s - 1) * halfStep a n| ≤ |halfStep a n| := by
      rw [abs_mul]
      exact mul_le_of_le_one_left (abs_nonneg _)
        (abs_le.mpr ⟨by linarith [hs.1], by linarith [hs.2]⟩)
    obtain ⟨t, ht, hspan⟩ := exists_span_le_sagitta hradius (middle a n k) hpart hturn
    exact ⟨t, ht, hspan.trans h⟩

/-! ## 3. The number of chords -/

/-- The number of chords of an arc for a tolerance, exactly. -/
noncomputable abbrev chords (a : Arc ℝ) (tolerance : ℝ) (limit : ℕ) : ℕ :=
  @Segment.stepsWithin ℝ scalar tolerance limit (.arc a)

theorem lt_iff_lt {x y : ℝ} : @Scalar.lt ℝ scalar x y = true ↔ x < y := decide_eq_true_iff

theorem le_iff_le {x y : ℝ} : @Scalar.le ℝ scalar x y = true ↔ x ≤ y := decide_eq_true_iff

/-- The count above a value, cut off at the greatest one. -/
theorem ceilCount_eq (x : ℝ) : @Scalar.ceilCount ℝ scalar x = min ⌈x⌉₊ Scalar.countLimit :=
  @Scalar.ceilCount_eq_min ℝ scalar x x rfl fun _ _ => lt_iff_lt

/-- **The choice of the number of chords**, for an arc that is worth drawing and a positive
tolerance. -/
theorem chords_eq {a : Arc ℝ} (hradius : 1 / 10 ^ 9 < a.radius) (hsweep : 1 / 10 ^ 9 < |sweep a|)
    {tolerance : ℝ} (htolerance : 0 < tolerance) (limit : ℕ) :
    chords a tolerance limit =
      if a.radius ≤ tolerance then 1
      else max 1 (min (min ⌈|sweep a| / (2 * Real.arccos (1 - tolerance / a.radius))⌉₊
        Scalar.countLimit) (max limit 1)) := by
  have hnegligible : @Segment.negligible ℝ scalar = 1 / 10 ^ 9 := by
    simp [Segment.negligible, Scalar.ofDecimal]
  have hzero : @Scalar.zero ℝ scalar = 0 := Nat.cast_zero
  have hone : @Scalar.one ℝ scalar = 1 := Nat.cast_one
  have htwo : @Scalar.two ℝ scalar = 2 := Nat.cast_two
  have habs : @Scalar.abs ℝ scalar (@Arc.sweep ℝ scalar a) = |sweep a| := rfl
  have harccos (x : ℝ) : @Scalar.acos ℝ scalar x = Real.arccos x := rfl
  unfold chords Segment.stepsWithin
  simp only [Bool.or_eq_true, le_iff_le, hnegligible, hzero, hone, htwo, habs, harccos,
    ceilCount_eq, not_le.mpr hradius, not_le.mpr hsweep, not_le.mpr htolerance, or_self, if_false]

/-! ## 4. The tolerance -/

/-- **As many chords as the formula asks for, or more, are within the tolerance.** -/
theorem sagitta_le_of_le {radius angle tolerance : ℝ} (htolerance : 0 < tolerance)
    (hradius : tolerance < radius) (hangle : 0 ≤ angle) {n : ℕ} (hn : 0 < n)
    (hcount : angle / (2 * Real.arccos (1 - tolerance / radius)) ≤ n) :
    sagitta radius (angle / (2 * n)) ≤ tolerance := by
  have hpos : 0 < radius := htolerance.trans hradius
  have hcount' : (0 : ℝ) < n := Nat.cast_pos.mpr hn
  have hratio : 0 < tolerance / radius := div_pos htolerance hpos
  have hratio' : tolerance / radius < 1 := (div_lt_one hpos).mpr hradius
  have hstep : 0 < Real.arccos (1 - tolerance / radius) :=
    Real.arccos_pos.mpr (by linarith)
  have hle : angle / (2 * n) ≤ Real.arccos (1 - tolerance / radius) := by
    rw [div_le_iff₀ (by positivity)] at hcount ⊢
    linarith
  have hcos : 1 - tolerance / radius ≤ Real.cos (angle / (2 * n)) := by
    have hmono := Real.cos_le_cos_of_nonneg_of_le_pi (by positivity) (Real.arccos_le_pi _) hle
    rwa [Real.cos_arccos (by linarith) (by linarith)] at hmono
  calc sagitta radius (angle / (2 * n)) ≤ radius * (tolerance / radius) :=
        mul_le_mul_of_nonneg_left (by linarith) hpos.le
    _ = tolerance := mul_div_cancel₀ _ hpos.ne'

/-- **The chords of an arc are within the tolerance, with one exception.**

Take an arc of at most one turn that is worth drawing, a positive tolerance, and a number of chords
that was not cut off at the limit.  The chords are within the tolerance unless the tolerance is at
least the radius and the one chord that is drawn then is too far from the arc.  This cannot happen
to an arc of at most half a turn, and not where the tolerance is less than the radius or at least
the diameter. -/
theorem chords_within_tolerance_iff (a : Arc ℝ) (hradius : 1 / 10 ^ 9 < a.radius)
    (hsweep : 1 / 10 ^ 9 < |sweep a|) (hturn : |sweep a| ≤ 2 * Real.pi) (tolerance : ℝ)
    (htolerance : 0 < tolerance) (limit : UInt32)
    (hlimit : chords a tolerance limit.toNat < limit.toNat) :
    let n := chords a tolerance limit.toNat
    (ChordsWithin a n tolerance ↔ sagitta a.radius (|sweep a| / (2 * n)) ≤ tolerance) ∧
      (sagitta a.radius (|sweep a| / (2 * n)) ≤ tolerance ↔
        ¬ (a.radius ≤ tolerance ∧ tolerance < sagitta a.radius (|sweep a| / 2))) ∧
      (|sweep a| ≤ Real.pi ∨ tolerance < a.radius ∨ 2 * a.radius ≤ tolerance →
        ChordsWithin a n tolerance) := by
  intro n
  have hn : n = _ := chords_eq hradius hsweep htolerance limit.toNat
  have hpos : 0 < a.radius := lt_trans (by positivity) hradius
  have hone : 0 < n := by
    rw [hn]
    split <;> omega
  have hturn' : |sweep a| / (2 * n) ≤ Real.pi := by
    have hcast : (1 : ℝ) ≤ n := Nat.one_le_cast.mpr hone
    rw [div_le_iff₀ (by positivity)]
    nlinarith [Real.pi_pos]
  have hwithin := chordsWithin_iff hpos.le hone hturn' tolerance
  have hexception : sagitta a.radius (|sweep a| / (2 * n)) ≤ tolerance ↔
      ¬ (a.radius ≤ tolerance ∧ tolerance < sagitta a.radius (|sweep a| / 2)) := by
    rcases le_or_gt a.radius tolerance with hle | hlt
    · rw [if_pos hle] at hn
      simp [hn, hle]
    · rw [if_neg hlt.not_ge] at hn
      have hcount : ⌈|sweep a| / (2 * Real.arccos (1 - tolerance / a.radius))⌉₊ ≤ n := by
        have hsize : limit.toNat ≤ Scalar.countLimit := Nat.le_pred_of_lt limit.toNat_lt
        omega
      refine iff_of_true ?_ fun h => absurd h.1 hlt.not_ge
      exact sagitta_le_of_le htolerance hlt (abs_nonneg _) hone
        ((Nat.le_ceil _).trans (Nat.cast_le.mpr hcount))
  refine ⟨hwithin, hexception, fun h => hwithin.mpr (hexception.mpr ?_)⟩
  rintro ⟨hle, hfar⟩
  rcases h with hhalf | hlt | hdiameter
  · have hcos : 0 ≤ Real.cos (|sweep a| / 2) :=
      Real.cos_nonneg_of_mem_Icc ⟨by linarith [abs_nonneg (sweep a), Real.pi_pos], by linarith⟩
    have hnear : sagitta a.radius (|sweep a| / 2) ≤ a.radius :=
      mul_le_of_le_one_right hpos.le (by linarith)
    linarith
  · exact hlt.not_ge hle
  · have hnear : sagitta a.radius (|sweep a| / 2) ≤ a.radius * 2 :=
      mul_le_mul_of_nonneg_left (by linarith [Real.neg_one_le_cos (|sweep a| / 2)]) hpos.le
    linarith

/-- Half a circle of radius 1 with a tolerance of a half: two chords, and they are within it. -/
theorem chords_within_tolerance_half_circle :
    let a : Arc ℝ := ⟨⟨0, 0⟩, 1, 0, 0, Real.pi, false⟩
    chords a (1 / 2) (32 : UInt32).toNat = 2 ∧ ChordsWithin a 2 (1 / 2) ∧
      sagitta a.radius (|sweep a| / (2 * (2 : ℕ))) ≤ 1 / 2 := by
  intro a
  have hsweep : |sweep a| = Real.pi := by
    have hpi : sweep a = Real.pi := sub_zero Real.pi
    rw [hpi, abs_of_pos Real.pi_pos]
  have hpi : (1 : ℝ) / 10 ^ 9 < Real.pi := by linarith [Real.pi_gt_three]
  have hchords : chords a (1 / 2) (32 : UInt32).toNat = 2 := by
    have hthird : Real.arccos (1 - 1 / 2 / 1) = Real.pi / 3 := by
      have hcos : (1 : ℝ) - 1 / 2 / 1 = Real.cos (Real.pi / 3) := by
        rw [Real.cos_pi_div_three]
        norm_num
      rw [hcos, Real.arccos_cos (by positivity) (by linarith [Real.pi_pos])]
    have hsteps : ⌈Real.pi / (2 * (Real.pi / 3))⌉₊ = 2 := by
      have hratio : Real.pi / (2 * (Real.pi / 3)) = 3 / 2 := by
        field_simp [Real.pi_ne_zero]
      rw [hratio, Nat.ceil_eq_iff two_ne_zero]
      norm_num
    rw [chords_eq (by norm_num [a]) (hsweep ▸ hpi) (by norm_num), if_neg (by norm_num [a]), hsweep,
      show a.radius = 1 from rfl, hthird, hsteps]
    rfl
  obtain ⟨hwithin, hiff, hcases⟩ := chords_within_tolerance_iff a (by norm_num [a]) (hsweep ▸ hpi)
    (by rw [hsweep]; linarith [Real.pi_pos]) (1 / 2) (by norm_num) 32 (by rw [hchords]; decide)
  rw [hchords] at hwithin hcases
  have hchordsWithin := hcases (Or.inl hsweep.le)
  exact ⟨hchords, hchordsWithin, hwithin.mp hchordsWithin⟩

/-- **Three quarters of a circle in one chord.**  The radius is 1 and the tolerance one and a half,
so one chord is chosen, though up to 32 would be allowed; but three quarters of the circle are more
than the tolerance away from it. -/
theorem three_quarters_in_one_chord :
    let a : Arc ℝ := ⟨⟨0, 0⟩, 1, 0, 0, 3 * Real.pi / 2, false⟩
    1 / 10 ^ 9 < a.radius ∧ 1 / 10 ^ 9 < |sweep a| ∧ |sweep a| ≤ 2 * Real.pi ∧
      chords a (3 / 2) (32 : UInt32).toNat = 1 ∧
      3 / 2 < sagitta a.radius (|sweep a| / (2 * (1 : ℕ))) ∧ ¬ ChordsWithin a 1 (3 / 2) := by
  intro a
  have hpi := Real.pi_gt_three
  have hsweep : |sweep a| = 3 * Real.pi / 2 := by
    have hpos : (0 : ℝ) < 3 * Real.pi / 2 := by positivity
    have heq : sweep a = 3 * Real.pi / 2 := sub_zero _
    rw [heq, abs_of_pos hpos]
  have hradius : 1 / 10 ^ 9 < a.radius := by norm_num [a]
  have hlong : 1 / 10 ^ 9 < |sweep a| := by
    rw [hsweep]
    linarith
  have hone : chords a (3 / 2) (32 : UInt32).toNat = 1 := by
    rw [chords_eq hradius hlong (by norm_num), if_pos (by norm_num [a])]
  have hfar : 3 / 2 < sagitta a.radius (|sweep a| / (2 * (1 : ℕ))) := by
    have hangle : 3 * Real.pi / 2 / (2 * (1 : ℕ)) = Real.pi - Real.pi / 4 := by
      push_cast
      ring
    have hroot : 1 < √(2 : ℝ) := Real.lt_sqrt_of_sq_lt (by norm_num)
    rw [hsweep, hangle, sagitta, Real.cos_pi_sub, Real.cos_pi_div_four, show a.radius = 1 from rfl]
    linarith
  have hturn : |sweep a| / (2 * (1 : ℕ)) ≤ Real.pi := by
    rw [hsweep]
    push_cast
    linarith
  refine ⟨hradius, hlong, by rw [hsweep]; linarith, hone, hfar, fun h => ?_⟩
  exact hfar.not_ge ((chordsWithin_iff zero_le_one one_pos hturn (3 / 2)).mp h)

end Motion.Exact
