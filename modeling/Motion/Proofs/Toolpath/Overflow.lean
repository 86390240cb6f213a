/-
# Where a program overflows

Every coordinate that a program names is finite, but the centre of an arc is a sum of two of them,
and the sum may be infinite.  So may the radius, and even where both are finite the circle may reach
out of the range of doubles.  This module says that nothing else overflows, and what comes of it.

* All other fields of all segments are finite, the angles of arcs among them: the directions that
  they are taken from may be infinite, but an angle is at most a half turn, and three half turns at
  the end.
* **A tool path has no box exactly if it is empty or a circle of it reaches out of the range**
  (`bounds?_eq_none_iff`).  In the second case the tool path is still reported like an empty one.

That the second case is complete takes some care, because what is no number is passed over by a box.
A corner of a circle may well be no number, the difference of two infinities; but then the other
corner is infinite, as long as centre and radius are numbers (`Double.corner_cases`), and they are
(`Double.isNaN_hypot`).
-/
import Motion.Proofs.Number.Hypotenuse
import Motion.Proofs.Toolpath.Direction
import Motion.Proofs.Toolpath.Extent

namespace Motion

open Double (value)

/-! ## 1. Sums and differences of infinities -/

namespace Double

/-- Two numbers are finite, or their difference or their sum is infinite. -/
theorem isFinite_or_infinite {c r : Float} (hc : c.isNaN = false) (hr : r.isNaN = false) :
    (c.isFinite ∧ r.isFinite) ∨ ∃ v ∈ [c - r, c + r], v.isNaN = false ∧ v.isFinite = false := by
  have hadd : c + r = .ofModel (.pack (.add .binary64 (unpacked c) (unpacked r))) := rfl
  have hsub : c - r = .ofModel (.pack (.sub .binary64 (unpacked c) (unpacked r))) := rfl
  rcases finite_or_infinity hc with hcf | ⟨s, hs⟩ <;>
    rcases finite_or_infinity hr with hrf | ⟨s', hs'⟩
  · exact Or.inl ⟨hcf, hrf⟩
  · refine Or.inr ⟨c + r, by simp, hadd ▸ infinite_of_unpacked (s := s') ?_⟩
    rw [hs']
    exact (add_infinity hcf s').1
  · refine Or.inr ⟨c + r, by simp, hadd ▸ infinite_of_unpacked (s := s) ?_⟩
    rw [hs]
    exact (add_infinity hrf s).2
  · -- of two infinities the sum is a number if they are on one side, and else the difference
    rcases eq_or_ne s s' with heq | hne
    · refine Or.inr ⟨c + r, by simp, hadd ▸ infinite_of_unpacked (s := s) ?_⟩
      rw [hs, hs', heq]
      cases s' <;> rfl
    · refine Or.inr ⟨c - r, by simp, hsub ▸ infinite_of_unpacked (s := s) ?_⟩
      rw [hs, hs']
      cases s <;> cases s' <;> first | rfl | exact absurd rfl hne

/-- Of numbers, difference and sum are finite, or one of them is infinite. -/
theorem corner_cases {c r : Float} (hc : c.isNaN = false) (hr : r.isNaN = false) :
    ((c - r).isFinite ∧ (c + r).isFinite) ∨
      ∃ v ∈ [c - r, c + r], v.isNaN = false ∧ v.isFinite = false := by
  rcases isFinite_or_infinite hc hr with ⟨hcf, -⟩ | hinfinite
  · have hsub := (value_sub hc hr (Or.inl hcf)).1
    have hadd := (value_add hc hr (Or.inl hcf)).1
    cases hsubf : (c - r).isFinite with
    | false => exact Or.inr ⟨c - r, by simp, hsub, hsubf⟩
    | true =>
      cases haddf : (c + r).isFinite with
      | false => exact Or.inr ⟨c + r, by simp, hadd, haddf⟩
      | true => exact Or.inl ⟨rfl, rfl⟩
  · exact Or.inr hinfinite

/-- What has a finite difference and a finite sum is finite. -/
theorem isFinite_of_corners {c r : Float} (hc : c.isNaN = false) (hr : r.isNaN = false)
    (hsub : (c - r).isFinite) (hadd : (c + r).isFinite) : c.isFinite ∧ r.isFinite := by
  refine (isFinite_or_infinite hc hr).resolve_right ?_
  rintro ⟨v, hv, -, hinfinite⟩
  simp only [List.mem_cons, List.not_mem_nil, or_false] at hv
  rcases hv with rfl | rfl
  · exact Bool.false_ne_true (hinfinite.symm.trans hsub)
  · exact Bool.false_ne_true (hinfinite.symm.trans hadd)

end Double

/-! ## 2. Arcs -/

/-- The circle of the arc does not reach out of the range of doubles. -/
def Arc.InRange (a : Arc Float) : Prop := a.low.IsFinite ∧ a.high.IsFinite

/-- The fields of the arc are numbers, and finite but for its circle. -/
structure Arc.IsSound (a : Arc Float) : Prop where
  centerX : a.center.x.isNaN = false
  centerY : a.center.y.isNaN = false
  radius : a.radius.isNaN = false
  z : a.z.isFinite
  startAngle : a.startAngle.isFinite
  endAngle : a.endAngle.isFinite

namespace Arc

variable {a : Arc Float}

theorem IsSound.isFinite (h : a.IsSound) (hr : a.InRange) : a.IsFinite := by
  obtain ⟨hx, hradius⟩ := Double.isFinite_of_corners h.centerX h.radius hr.1.x hr.2.x
  exact ⟨hx, (Double.isFinite_of_corners h.centerY h.radius hr.1.y hr.2.y).1, hradius, h.z,
    h.startAngle, h.endAngle⟩

/-- **A circle that reaches out of the range has an infinite corner**, not only one that is no
number. -/
theorem IsSound.exists_infinite (h : a.IsSound) (hr : ¬a.InRange) :
    ∃ p ∈ Toolpath.extremes (.arc a), ∃ axis, Scalar.isNaN (p.along axis) = false ∧
      Scalar.isFinite (p.along axis) = false := by
  have hmem : ∀ axis : Axis, ∀ x ∈ [a.low.along axis, a.high.along axis],
      x.isNaN = false → x.isFinite = false → ∃ p ∈ Toolpath.extremes (.arc a), ∃ axis,
        Scalar.isNaN (p.along axis) = false ∧ Scalar.isFinite (p.along axis) = false := by
    intro axis x hx hn hf
    rw [Double.isNaN_eq_not_beq] at hn
    simp only [List.mem_cons, List.not_mem_nil, or_false] at hx
    rcases hx with rfl | rfl
    · exact ⟨a.low, by simp [Toolpath.extremes_arc], axis, hn, hf⟩
    · exact ⟨a.high, by simp [Toolpath.extremes_arc], axis, hn, hf⟩
  rcases Double.corner_cases h.centerX h.radius with ⟨hlowx, hhighx⟩ | ⟨v, hv, hn, hf⟩
  · rcases Double.corner_cases h.centerY h.radius with ⟨hlowy, hhighy⟩ | ⟨v, hv, hn, hf⟩
    · exact absurd ⟨⟨hlowx, hlowy, h.z⟩, ⟨hhighx, hhighy, h.z⟩⟩ hr
    · exact hmem .y v hv hn hf
  · exact hmem .x v hv hn hf

section Angles

variable {angle : Float → Float → Float}
  (hangle : @Scalar.Angles Float (Double.withAtan2 angle) value Double.pi)
include hangle

/-- The direction from a centre that may be infinite is an angle. -/
theorem value_direction_double {origin p : PlanePoint Float} (hox : origin.x.isNaN = false)
    (hoy : origin.y.isNaN = false) (hpx : p.x.isFinite) (hpy : p.y.isFinite) :
    ∃ θ : ℝ, value (@direction Float (Double.withAtan2 angle) origin p) = θ ∧
      -Double.pi ≤ θ ∧ θ ≤ Double.pi :=
  (@value_direction Float (Double.withAtan2 angle) value Double.round Double.pi
    (Double.rounding_double angle) hangle origin p ((Double.isNaN_withAtan2 angle _).trans hox)
    ((Double.isNaN_withAtan2 angle _).trans hoy) hpx hpy).2

/-- An angle that was shifted by a turn is still less than sixteen either way. -/
theorem between_unwind {s e : Float} {x y : ℝ} (hs : value s = x) (he : value e = y)
    (hx : -Double.pi ≤ x ∧ x ≤ Double.pi) (hy : -Double.pi ≤ y ∧ y ≤ Double.pi)
    (clockwise : Bool) :
    Double.Between (unwind s e clockwise) (-2 ^ (4 : ℤ)) (2 ^ (4 : ℤ)) := by
  have hpi : Double.pi ≤ 4 := by
    unfold Double.pi
    norm_num
  have hbound : Double.IsBound (2 ^ (4 : ℤ)) := Double.isBound_zpow (by norm_num) (by norm_num)
  obtain ⟨-, hvalue⟩ := @value_unwind Float (Double.withAtan2 angle) value Double.round Double.pi
    (Double.rounding_double angle) hangle s e x y
    ((Double.isNaN_withAtan2 angle s).trans (Double.isNaN_of_value hs))
    ((Double.isNaN_withAtan2 angle e).trans (Double.isNaN_of_value he)) hs he clockwise
  obtain ⟨hcw, hccw⟩ := exactEnd_bounds hx hy
  have hend : -2 ^ (4 : ℤ) ≤ exactEnd (2 * Double.pi) x y clockwise ∧
      exactEnd (2 * Double.pi) x y clockwise ≤ 2 ^ (4 : ℤ) := by
    norm_num
    cases clockwise <;> constructor <;> linarith
  exact Double.between_of_round hvalue hbound.neg hbound hend

/-- An angle is finite, and it still is after it was shifted by a turn. -/
theorem isFinite_unwind {s e : Float} {x y : ℝ} (hs : value s = x) (he : value e = y)
    (hx : -Double.pi ≤ x ∧ x ≤ Double.pi) (hy : -Double.pi ≤ y ∧ y ≤ Double.pi)
    (clockwise : Bool) : (unwind s e clockwise).isFinite := by
  obtain ⟨z, hz, -⟩ := between_unwind hangle hs he hx hy clockwise
  exact Double.isFinite_of_value hz

/-- **The arc of finite coordinates is finite but for its circle.** -/
theorem isSound_resolve {start : Point Float} (hstart : start.IsFinite) {c : Command Float}
    (hc : c.IsFinite) (clockwise : Bool) :
    (@resolve Float (Double.withAtan2 angle) start c clockwise).IsSound := by
  have hsx := Double.isNaN_of_isFinite hstart.x
  have hsy := Double.isNaN_of_isFinite hstart.y
  have hcx := (Double.value_add hsx (Double.isNaN_of_isFinite hc.i) (Or.inl hstart.x)).1
  have hcy := (Double.value_add hsy (Double.isNaN_of_isFinite hc.j) (Or.inl hstart.y)).1
  have hradius := Double.isNaN_hypot (Double.value_sub hsx hcx (Or.inl hstart.x)).1
    (Double.value_sub hsy hcy (Or.inl hstart.y)).1
  have hangles : ∀ p : PlanePoint Float, p.x.isFinite → p.y.isFinite →
      ∃ θ : ℝ, value (@direction Float (Double.withAtan2 angle)
        ⟨start.x + c.offset.x, start.y + c.offset.y⟩ p) = θ ∧ -Double.pi ≤ θ ∧ θ ≤ Double.pi :=
    fun p hpx hpy => value_direction_double hangle hcx hcy hpx hpy
  obtain ⟨x, hx, hxpi⟩ := hangles start.foot hstart.x hstart.y
  obtain ⟨y, hy, hypi⟩ := hangles c.target.foot hc.target.x hc.target.y
  exact ⟨hcx, hcy, hradius, hstart.z, Double.isFinite_of_value hx,
    isFinite_unwind hangle hx hy hxpi hypi clockwise⟩

end Angles
end Arc

/-! ## 3. Tool paths -/

/-- The fields of the segment are finite, but for the circle of an arc. -/
def Segment.IsSound : Segment Float → Prop
  | .move stop => stop.IsFinite
  | .line start stop => start.IsFinite ∧ stop.IsFinite
  | .arc a => a.IsSound

theorem Segment.IsSound.isFinite {s : Segment Float} (h : s.IsSound) :
    s.IsFinite ∨ ∃ a, s = .arc a ∧ ¬a.InRange := by
  cases s with
  | move stop => exact Or.inl h
  | line start stop => exact Or.inl h
  | arc a => exact (Classical.em a.InRange).imp (Arc.IsSound.isFinite h) fun hr => ⟨a, rfl, hr⟩

/-- The extremes of a segment with finite fields are finite. -/
theorem Segment.IsSound.isFinite_extremes {s : Segment Float} (h : s.IsSound)
    (hr : ∀ a, s = .arc a → a.InRange) : ∀ p ∈ Toolpath.extremes s, p.IsFinite := by
  cases s with
  | move stop =>
    have hstop : stop.IsFinite := h
    simpa [Toolpath.extremes] using hstop
  | line start stop =>
    have hends : start.IsFinite ∧ stop.IsFinite := h
    simpa [Toolpath.extremes] using hends
  | arc a =>
    have hcorners : a.low.IsFinite ∧ a.high.IsFinite := hr a rfl
    simpa [Toolpath.extremes_arc] using hcorners

theorem Toolpath.extremes_ne_nil (s : Segment Float) : extremes s ≠ [] := by
  cases s <;> exact List.cons_ne_nil _ _

/-- **A sound tool path without a box** is empty or has a circle that reaches out of the range. -/
theorem Toolpath.bounds?_eq_none_iff_of_isSound {t : Toolpath Float}
    (h : ∀ s ∈ t.segments.toList, s.IsSound) :
    t.bounds? = none ↔
      t.segments.toList = [] ∨ ∃ a, .arc a ∈ t.segments.toList ∧ ¬a.InRange := by
  have hr : Scalar.Rounding value Double.round := Double.rounding_double Float.atan2
  have hg : Scalar.Ranged value := Double.ranged_withCircle Float.sin Float.cos
  have hnone : t.bounds? = none ↔
      ¬(Box.around (t.segments.toList.flatMap extremes)).isValid := by
    simp only [bounds?]
    split <;> simp_all
  rw [hnone]
  constructor
  · contrapose!
    rintro ⟨hne, hrange⟩
    refine Box.isValid_around hr hg ?_ fun p hp axis => ?_
    · obtain ⟨s, hs⟩ := List.exists_mem_of_ne_nil _ hne
      obtain ⟨p, hp⟩ := List.exists_mem_of_ne_nil _ (extremes_ne_nil s)
      exact List.ne_nil_of_mem (List.mem_flatMap.mpr ⟨s, hs, hp⟩)
    · obtain ⟨s, hs, hp⟩ := List.mem_flatMap.mp hp
      exact ((h s hs).isFinite_extremes (fun a ha => hrange a (ha ▸ hs)) p hp).along axis
  · rintro (hnil | ⟨a, ha, hrange⟩) hvalid
    · obtain ⟨p, hp⟩ := Box.exists_mem_of_isValid hr hg hvalid
      simp [hnil] at hp
    · obtain ⟨p, hp, axis, hnumber, hinfinite⟩ := Arc.IsSound.exists_infinite (h _ ha) hrange
      have hfinite := Box.isFinite_of_isValid hr hg hvalid
        (List.mem_flatMap.mpr ⟨_, ha, hp⟩) hnumber
      exact Bool.false_ne_true (hinfinite.symm.trans hfinite)

/-! ## 4. Programs -/

section Programs

variable {angle : Float → Float → Float}
  (hangle : @Scalar.Angles Float (Double.withAtan2 angle) value Double.pi)
include hangle

theorem Command.isSound_segmentFrom {start : Point Float} (hstart : start.IsFinite)
    {c : Command Float} (hc : c.IsFinite) (hmotion : c.isMotion) :
    (@Command.segmentFrom Float (Double.withAtan2 angle) start c).IsSound := by
  rcases c.code.motion_cases with hcode | hcode | hcode | hcode | ⟨hnone, -⟩
  case inr.inr.inr.inr => exact absurd (hnone.symm.trans hmotion) Bool.false_ne_true
  all_goals simp only [Command.segmentFrom, hcode, Code.number]
  · exact hc.target
  · exact ⟨hstart, hc.target⟩
  · exact Arc.isSound_resolve hangle hstart hc true
  · exact Arc.isSound_resolve hangle hstart hc false

/-- **The segments of every program are sound.** -/
theorem isSound_of_mem_ofText {o : Options} {t : Text} {s : Segment Float}
    (hs : s ∈ (@Simulation.ofText Float (Double.withAtan2 angle) o t).toolpath.segments.toList) :
    s.IsSound := by
  rw [@Simulation.segments_ofText Float (Double.withAtan2 angle)] at hs
  obtain ⟨e, he, rfl⟩ := List.mem_map.mp hs
  obtain ⟨hmotion, after, hcommands⟩ := exists_of_mem_motions he
  have hfinite : ∀ c ∈ e.1 ++ e.2 :: after, c.IsFinite := by
    rw [← hcommands]
    intro c hc
    have h := @isFinite_of_mem_ofText Float (Double.withAtan2 angle) Double.isFinite_zero o t c hc
    cases h with
    | mk htarget hi hj =>
      cases htarget with
      | mk hx hy hz => exact ⟨⟨hx, hy, hz⟩, hi, hj⟩
  have hstart : (positionAfter (@Point.origin Float (Double.withAtan2 angle)) e.1).IsFinite :=
    isFinite_positionAfter (Point.isFinite_origin Double.isFinite_zero)
      fun c hc => hfinite c (List.mem_append_left _ hc)
  exact Command.isSound_segmentFrom hangle hstart (hfinite e.2 (by simp)) hmotion

end Programs

/-- **When a program has no box.**

All fields of all segments of a program are finite, or the segment is an arc whose circle reaches
out of the range of doubles; and then its height and its angles still are.  The tool path has no box
exactly if it has no segments or has such an arc. -/
theorem bounds?_eq_none_iff {angle : Float → Float → Float}
    (hangle : @Scalar.Angles Float (Double.withAtan2 angle) value Double.pi) (o : Options)
    (t : Text) :
    let path := (@Simulation.ofText Float (Double.withAtan2 angle) o t).toolpath
    (∀ s ∈ path.segments.toList, s.IsSound ∧ (s.IsFinite ∨ ∃ a, s = .arc a ∧ ¬a.InRange)) ∧
    (path.bounds? = none ↔
      path.segments.toList = [] ∨ ∃ a, .arc a ∈ path.segments.toList ∧ ¬a.InRange) := by
  intro path
  have hsound : ∀ s ∈ path.segments.toList, s.IsSound := fun s hs =>
    isSound_of_mem_ofText hangle hs
  exact ⟨fun s hs => ⟨hsound s hs, (hsound s hs).isFinite⟩,
    Toolpath.bounds?_eq_none_iff_of_isSound hsound⟩

/-- Counter-clockwise about (1e308, 0) from the origin: the circle reaches to twice 1e308. -/
theorem bounds?_eq_none_iff_one_circle :
    let path := (@Simulation.ofText Float (Double.withAtan2 Double.axisAngle) {}
      "G3 I1e308".toList).toolpath
    path.segments.toList.length = 1 ∧ (∀ s ∈ path.segments.toList, s.IsSound) ∧
      (∃ a, .arc a ∈ path.segments.toList ∧ ¬a.InRange) ∧ path.bounds? = none := by
  intro path
  have hpath : path.segments.toList =
      [.arc ⟨⟨1e308, 0⟩, 1e308, 0, Double.halfTurn false, Double.halfTurn false, false⟩] := by
    decide +kernel
  obtain ⟨hsound, hbox⟩ := bounds?_eq_none_iff Double.angles_axisAngle {} "G3 I1e308".toList
  have hrange : ∃ a, .arc a ∈ path.segments.toList ∧ ¬a.InRange := by
    refine ⟨_, hpath ▸ List.mem_singleton_self _, fun h => ?_⟩
    exact absurd h.2.x (by decide +kernel)
  exact ⟨by rw [hpath]; rfl, fun s hs => (hsound s hs).1, hrange, hbox.mpr (Or.inr hrange)⟩

/-- **Finite coordinates do not make a finite tool path, nor do finite segments make a box.**  The
first program puts a centre at infinity.  In the second all fields of the one segment are finite,
and yet the tool path is reported like an empty one. -/
theorem overflowing_circles :
    let path := fun text : String =>
      (@Simulation.ofText Float (Double.withAtan2 Double.axisAngle) {} text.toList).toolpath
    let π := Double.halfTurn false
    (path "G0 X1e308\nG3 X1e308 I1e308").segments.toList =
      [.move ⟨1e308, 0, 0⟩, .arc ⟨⟨1 / 0, 0⟩, 1 / 0, 0, π, π, false⟩] ∧
    (path "G3 I1e308").segments.toList = [.arc ⟨⟨1e308, 0⟩, 1e308, 0, π, π, false⟩] ∧
    (path "G3 I1e308").bounds? = none := by
  decide +kernel

end Motion
