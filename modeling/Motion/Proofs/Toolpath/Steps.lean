/-
# The number of steps of an arc

`Segment.stepsWithin` chooses the number of steps of an arc for a tolerance and a limit.  Four of
its answers take no computing: one step for an arc that is next to nothing, as many steps as there
may be for a tolerance that is not positive, one step for a tolerance of the radius or more, and one
step for what is no arc.  Between them an angle is computed from the tolerance, and the sweep of the
arc is divided by it (`Arc.stepsFor`).

* **The limit only cuts off** (`Segment.stepsWithin_eq_min`), in every arithmetic: the number is
  that for the greatest limit, or the limit itself if that is less.
* **A larger tolerance asks for no more steps** (`Double.stepsWithin_antitone`), in double
  precision.  Every operation keeps the order or turns it around, rounded as it is
  (`Double.angle_le_angle`), and what is computed is kept between one and the limit, which are the
  answers at the two ends.  Where the radius or the sweep is no number, the tolerance does not
  matter any more.
-/
import Motion.Proofs.Number.Lengths
import Motion.Toolpath.Sampling

namespace Motion

/-! ## 1. The limit -/

section Limit

variable {α : Type} [Scalar α]

/-- The number of steps that a positive tolerance, less than the radius, asks for. -/
def Arc.stepsFor (a : Arc α) (tolerance : α) : Nat :=
  Scalar.ceilCount (Scalar.abs a.sweep /
    (Scalar.two * Scalar.acos (Scalar.one - tolerance / a.radius)))

namespace Segment

theorem stepsWithin_arc (a : Arc α) (tolerance : α) (limit : ℕ) :
    (arc a).stepsWithin tolerance limit =
      if Scalar.le a.radius negligible || Scalar.le (Scalar.abs a.sweep) negligible then 1
      else if Scalar.le tolerance Scalar.zero then max limit 1
      else if Scalar.le a.radius tolerance then 1
      else max 1 (min (a.stepsFor tolerance) (max limit 1)) := rfl

variable (s : Segment α) (tolerance : α)

/-- **The limit only cuts off.** -/
theorem stepsWithin_eq_min {limit : ℕ} (h : limit ≤ Scalar.countLimit) :
    s.stepsWithin tolerance limit =
      min (s.stepsWithin tolerance Scalar.countLimit) (max limit 1) := by
  have hlimit : 1 ≤ Scalar.countLimit := by decide
  cases s with
  | move stop => exact (min_eq_left (le_max_right limit 1)).symm
  | line start stop => exact (min_eq_left (le_max_right limit 1)).symm
  | arc a =>
    rw [stepsWithin_arc, stepsWithin_arc]
    split_ifs <;> omega

theorem stepsWithin_between (limit : ℕ) :
    1 ≤ s.stepsWithin tolerance limit ∧ s.stepsWithin tolerance limit ≤ max limit 1 := by
  cases s with
  | move stop => exact ⟨le_rfl, le_max_right limit 1⟩
  | line start stop => exact ⟨le_rfl, le_max_right limit 1⟩
  | arc a =>
    rw [stepsWithin_arc]
    split_ifs <;> omega

/-- A greater limit allows as many steps or more. -/
theorem stepsWithin_mono {limit limit' : ℕ} (h : limit ≤ limit') :
    s.stepsWithin tolerance limit ≤ s.stepsWithin tolerance limit' := by
  cases s with
  | move stop => exact le_rfl
  | line start stop => exact le_rfl
  | arc a =>
    rw [stepsWithin_arc, stepsWithin_arc]
    split_ifs <;> omega

/-- **From the computed numbers to all of them.**  A tolerance that is positive, and at the radius,
wherever another one is, gives no more steps than that, if it does so where both are computed with:
one step and as many as there may be are the ends of the range. -/
theorem stepsWithin_le_of_stepsFor_le {tolerance tolerance' : α} (limit : ℕ)
    (hpos : Scalar.le tolerance' Scalar.zero → Scalar.le tolerance Scalar.zero)
    (hradius : ∀ r, Scalar.le r tolerance → Scalar.le r tolerance')
    (hsteps : ∀ a : Arc α, Scalar.le (Scalar.abs a.sweep) negligible = false →
      Scalar.le tolerance Scalar.zero = false → Scalar.le a.radius tolerance' = false →
      a.stepsFor tolerance' ≤ a.stepsFor tolerance) :
    s.stepsWithin tolerance' limit ≤ s.stepsWithin tolerance limit := by
  have hlow := (s.stepsWithin_between tolerance limit).1
  have hhigh := (s.stepsWithin_between tolerance' limit).2
  cases s with
  | move stop => exact le_rfl
  | line start stop => exact le_rfl
  | arc a =>
    cases hsmall : Scalar.le a.radius negligible || Scalar.le (Scalar.abs a.sweep) negligible with
    | true =>
      rw [stepsWithin_arc, stepsWithin_arc, if_pos hsmall, if_pos hsmall]
    | false =>
      obtain ⟨-, hsweep⟩ := Bool.or_eq_false_iff.mp hsmall
      cases hzero : Scalar.le tolerance Scalar.zero with
      | true =>
        -- the lesser tolerance asks for as many steps as there may be
        rwa [stepsWithin_arc a tolerance, if_neg (by simp [hsmall]), if_pos hzero]
      | false =>
        have hzero' : Scalar.le tolerance' Scalar.zero = false :=
          Bool.eq_false_iff.mpr fun h => by simp [hpos h] at hzero
        cases hnear : Scalar.le a.radius tolerance' with
        | true =>
          -- the larger one asks for one step
          have hone : (arc a).stepsWithin tolerance' limit = 1 := by
            rw [stepsWithin_arc, if_neg (by simp [hsmall]), if_neg (by simp [hzero']), if_pos hnear]
          rwa [hone]
        | false =>
          have hfar : Scalar.le a.radius tolerance = false :=
            Bool.eq_false_iff.mpr fun h => by simp [hradius _ h] at hnear
          have hfewer := hsteps a hsweep hzero hnear
          simp only [stepsWithin_arc, hsmall, hzero, hzero', hnear, hfar, Bool.false_eq_true,
            if_false]
          omega

end Segment
end Limit

/-! ## 2. The angle of a step -/

namespace Double

open Float.Model (UnpackedFloat)

variable {t t' r q q' : Float}

/-- A positive tolerance less than the radius is a part of it, rounded. -/
theorem between_quotient (ht : IsLength t) (hpos : 0 < value t) (hr : r.isNaN = false)
    (hlt : value t < value r) :
    value (t / r) = round (ratio (value t) (value r)) ∧ Between (t / r) 0 1 := by
  have hfinite : t.isFinite := by
    rcases ht.cases with hu | hu | ⟨m, e, hm, hu⟩
    · have htop : value t = ⊤ := congrArg unpackedValue hu
      exact absurd hlt (htop ▸ le_top.not_gt)
    · exact congrArg UnpackedFloat.isFinite hu
    · exact congrArg UnpackedFloat.isFinite hu
  obtain ⟨-, hvalue⟩ := value_div_length ht hpos (isLength_of_pos hr (hpos.trans hlt))
    (Or.inl hfinite)
  refine ⟨hvalue, between_of_le ?_ ?_⟩
  · rw [hvalue, ← isBound_zero.round_eq]
    exact monotone_round (ratio_nonneg _ _)
  · rw [hvalue, ← isBound_one.round_eq]
    exact monotone_round (ratio_le_one hlt.le)

/-- What is left of the radius is a cosine, -/
theorem between_cosine (hq : Between q 0 1) : -1 ≤ Scalar.one - q ∧ Scalar.one - q ≤ 1 := by
  obtain ⟨y, hy, hlow, hhigh⟩ := hq
  have hone : value Scalar.one = (1 : ℝ) := value_one
  obtain ⟨z, hz, hz₀, hz₁⟩ := between_sub hone hy isBound_zero isBound_one
    ⟨by linarith, by linarith⟩
  have hnan := isNaN_of_value hz
  constructor
  · have hneg : (-1 : ℝ) ≤ z := by linarith
    rw [le_iff_value rfl hnan, value_neg_one, hz]
    exact EReal.coe_le_coe_iff.mpr hneg
  · rw [le_iff_value hnan rfl, value_one, hz]
    exact EReal.coe_le_coe_iff.mpr hz₁

/-- and the more is taken the less it is. -/
theorem cosine_le (hq : Between q 0 1) (hq' : Between q' 0 1) (hle : value q ≤ value q') :
    Scalar.one - q' ≤ Scalar.one - q := by
  obtain ⟨y, hy, -⟩ := hq
  obtain ⟨y', hy', -⟩ := hq'
  have hone : value Scalar.one = (1 : ℝ) := value_one
  obtain ⟨hnan, hvalue⟩ := value_sub rfl (isNaN_of_value hy) (Or.inl (isFinite_of_value hone))
  obtain ⟨hnan', hvalue'⟩ := value_sub rfl (isNaN_of_value hy') (Or.inl (isFinite_of_value hone))
  rw [le_iff_value hnan' hnan, hvalue, hvalue']
  exact monotone_round (EReal.sub_le_sub le_rfl hle)

variable {arccos : Float → Float} {a : Arc Float}

/-- **The angle of a step grows with the tolerance.** -/
theorem angle_le_angle (h : Arccosines arccos) (hle : t ≤ t') (hpos : 0 < value t)
    (hr : r.isNaN = false) (hlt : value t' < value r) :
    let angle (t : Float) := Scalar.two * arccos (Scalar.one - t / r)
    (IsLength (angle t) ∧ (angle t).isFinite) ∧ (IsLength (angle t') ∧ (angle t').isFinite) ∧
      value (angle t) ≤ value (angle t') := by
  intro angle
  obtain ⟨ht, ht'⟩ := isNaN_of_le hle
  rw [le_iff_value ht ht'] at hle
  have hpos' : 0 < value t' := hpos.trans_le hle
  obtain ⟨hvalue, hq⟩ := between_quotient (isLength_of_pos ht hpos) hpos hr (hle.trans_lt hlt)
  obtain ⟨hvalue', hq'⟩ := between_quotient (isLength_of_pos ht' hpos') hpos' hr hlt
  have hquotient : value (t / r) ≤ value (t' / r) := by
    rw [hvalue, hvalue']
    exact monotone_round (ratio_le_ratio_left hle _)
  have hcosine := between_cosine hq
  have hcosine' := between_cosine hq'
  exact ⟨isLength_two_arccos h hcosine, isLength_two_arccos h hcosine',
    two_arccos_le h hcosine' hcosine (cosine_le hq hq' hquotient)⟩

/-- What is not negligible is positive, if it is a number. -/
theorem pos_of_not_negligible (hr : r.isNaN = false)
    (h : Scalar.le r Segment.negligible = false) : 0 < value r := by
  obtain ⟨hnan, hvalue⟩ := value_ofDecimal false 1 (-9)
  have hnonneg : 0 ≤ value (ofDecimal false 1 (-9)) := by
    have hdecimal : 0 ≤ decimal false 1 (-9) := by
      unfold decimal
      norm_num
    rw [hvalue, ← EReal.coe_zero, ← isBound_zero.round_eq]
    exact monotone_round (EReal.coe_le_coe_iff.mpr hdecimal)
  have hle : ¬ r ≤ ofDecimal false 1 (-9) := of_decide_eq_false h
  rw [le_iff_value hr hnan, not_le] at hle
  exact hnonneg.trans_lt hle

theorem stepsFor_eq (arccos : Float → Float) (a : Arc Float) (t : Float) :
    @Arc.stepsFor Float (withArccos arccos) a t =
      Scalar.ceilCount
        (Scalar.abs a.sweep / (Scalar.two * arccos (Scalar.one - t / a.radius))) := rfl

/-- **A larger tolerance asks for no more steps**, where an angle is computed from it. -/
theorem stepsFor_antitone (h : Arccosines arccos)
    (hsweep : Scalar.le (Scalar.abs a.sweep) Segment.negligible = false)
    (hpos : Scalar.le t Scalar.zero = false) (hle : t ≤ t')
    (hless : Scalar.le a.radius t' = false) :
    @Arc.stepsFor Float (withArccos arccos) a t' ≤ @Arc.stepsFor Float (withArccos arccos) a t := by
  obtain ⟨ht, ht'⟩ := isNaN_of_le hle
  rw [stepsFor_eq, stepsFor_eq]
  cases hr : a.radius.isNaN with
  | true =>
    -- the angle is computed from what is no number
    rw [div_nan hr t' t]
  | false =>
    cases hs : (Scalar.abs a.sweep).isNaN with
    | true => rw [nan_div hs]
    | false =>
      have hzero : value Scalar.zero = 0 := value_of_unpacked_zero unpacked_zero
      have hpos' : 0 < value t := by
        have hnot : ¬ t ≤ Scalar.zero := of_decide_eq_false hpos
        rwa [le_iff_value ht rfl, hzero, not_le] at hnot
      have hless' : value t' < value a.radius := by
        have hnot : ¬ a.radius ≤ t' := of_decide_eq_false hless
        rwa [le_iff_value hr ht', not_le] at hnot
      obtain ⟨⟨hangle, hfinite⟩, ⟨hangle', hfinite'⟩, hgrows⟩ :=
        angle_le_angle h hle hpos' hr hless'
      have hsweep' := pos_of_not_negligible hs hsweep
      have hlength := isLength_of_pos hs hsweep'
      obtain ⟨hnan, hcount⟩ := value_div_length hlength hsweep' hangle (Or.inr hfinite)
      obtain ⟨hnan', hcount'⟩ := value_div_length hlength hsweep' hangle' (Or.inr hfinite')
      refine ceilCount_le_ceilCount hnan' hnan ?_
      rw [hcount, hcount']
      exact monotone_round (ratio_le_ratio_right hgrows _)

/-- **A larger tolerance gives no more steps**, whichever of the answers they are. -/
theorem stepsWithin_antitone (h : Arccosines arccos) (s : Segment Float) (limit : ℕ)
    (hle : t ≤ t') :
    @Segment.stepsWithin Float (withArccos arccos) t' limit s ≤
      @Segment.stepsWithin Float (withArccos arccos) t limit s := by
  refine @Segment.stepsWithin_le_of_stepsFor_le Float (withArccos arccos) s t t' limit ?pos ?radius
    ?steps
  case pos =>
    intro hzero
    exact decide_eq_true (le_trans_double hle (of_decide_eq_true hzero))
  case radius =>
    intro r hr
    exact decide_eq_true (le_trans_double (of_decide_eq_true hr) hle)
  case steps =>
    intro a hsweep hpos hless
    exact stepsFor_antitone h hsweep hpos hle hless

end Double

/-! ## 3. All segments -/

/-- **The number of steps is capped and ordered.**

Whatever the angles of cosines are, the number of steps of a segment for a tolerance, which may be
an infinity or no number, is that for the greatest limit, cut off at the limit, or at 1 if that is
0.  So it lies between 1 and the limit, and it grows with the limit.  If the greater of two cosines
has the lesser angle, a larger tolerance gives no more steps. -/
theorem steps_are_capped_and_ordered (arccos : Float → Float) (s : Segment Float) :
    let steps (tolerance : Float) (limit : UInt32) : ℕ :=
      @Segment.stepsWithin Float (Double.withArccos arccos) tolerance limit.toNat s
    (∀ t m, steps t m = min (steps t 4294967295) (max m.toNat 1)) ∧
    (∀ t m, 1 ≤ steps t m ∧ steps t m ≤ max m.toNat 1) ∧
    (∀ t m m', m ≤ m' → steps t m ≤ steps t m') ∧
    (Double.Arccosines arccos → ∀ t t' m, t ≤ t' → steps t' m ≤ steps t m) := by
  intro steps
  refine ⟨?capped, ?between, ?limit, ?tolerance⟩
  case capped =>
    intro t m
    exact @Segment.stepsWithin_eq_min Float (Double.withArccos arccos) s t m.toNat
      (Nat.le_pred_of_lt m.toNat_lt)
  case between =>
    intro t m
    exact @Segment.stepsWithin_between Float (Double.withArccos arccos) s t m.toNat
  case limit =>
    intro t m m' hm
    exact @Segment.stepsWithin_mono Float (Double.withArccos arccos) s t _ _
      (UInt32.le_iff_toNat_le.mp hm)
  case tolerance =>
    intro h t t' m hle
    exact Double.stepsWithin_antitone h s m.toNat hle

/-- Half a circle of radius 1 has three steps for a quarter of the radius and two for half of it,
and no more than two if two are the limit. -/
theorem steps_are_capped_and_ordered_half_circle :
    let s : Segment Float := .arc ⟨⟨0, 0⟩, 1, 0, 0, Double.halfTurn false, false⟩
    let steps (tolerance : Float) (limit : UInt32) : ℕ :=
      @Segment.stepsWithin Float (Double.withArccos Double.steppedArccos) tolerance limit.toNat s
    steps 0.25 32 = 3 ∧ steps 0.5 32 = 2 ∧ steps 0.5 32 ≤ steps 0.25 32 ∧
      steps 0.25 2 = 2 ∧ steps 0.25 2 = min (steps 0.25 4294967295) 2 := by
  intro s steps
  obtain ⟨hcapped, -, -, htolerance⟩ := steps_are_capped_and_ordered Double.steppedArccos s
  have hless := htolerance Double.arccosines_steppedArccos 0.25 0.5 32 (by decide +kernel)
  exact ⟨by decide +kernel, by decide +kernel, hless, by decide +kernel, hcapped 0.25 2⟩

end Motion
