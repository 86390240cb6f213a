/-
# Resolved arcs join the tool path

An arc is resolved from a start and a target to a circle and two angles, and a drawing goes the
other way, from the angles to points.  In exact arithmetic nothing is lost on the way where it
should not be.

| point of the arc | is                                                                   |
|------------------|----------------------------------------------------------------------|
| start            | the start of the command, in all three coordinates                   |
| end              | the point of the circle in the direction of the target               |

The start lies on the circle because the circle is drawn through it.  The target need not; where it
does not, the arc ends short of it or beyond it, and the next segment starts somewhere else.  That
is the only gap: the arc ends where the tool is next exactly if the target is as far from the centre
as the start (`resolve_joins`).

Two cases are no exceptions.  A circle of radius zero is a point, and its only point is the start.
A target in the centre has no direction, and angle zero stands for it.
-/
import Motion.Proofs.Toolpath.Direction

namespace Motion.Exact

/-! ## 1. Points of a circle -/

/-- The distance in the plane, exactly. -/
noncomputable abbrev distance (p q : PlanePoint ℝ) : ℝ := @PlanePoint.distance ℝ scalar p q

/-- The direction from one position to another, exactly. -/
noncomputable abbrev direction (origin p : PlanePoint ℝ) : ℝ := @Arc.direction ℝ scalar origin p

/-- The point of a circle at an angle, exactly. -/
noncomputable abbrev pointAt (a : Arc ℝ) (angle : ℝ) : Point ℝ := @Arc.pointAt ℝ scalar a angle

theorem pointAt_eq (a : Arc ℝ) (angle : ℝ) :
    pointAt a angle =
      ⟨a.center.x + a.radius * Real.cos angle, a.center.y + a.radius * Real.sin angle, a.z⟩ := rfl

theorem distance_eq (p q : PlanePoint ℝ) :
    distance p q = √((p.x - q.x) ^ 2 + (p.y - q.y) ^ 2) := rfl

theorem distance_pos {p q : PlanePoint ℝ} (h : p ≠ q) : 0 < distance p q := by
  obtain ⟨px, py⟩ := p
  obtain ⟨qx, qy⟩ := q
  rw [distance_eq]
  refine Real.sqrt_pos.mpr (lt_of_le_of_ne (by positivity) fun hzero => h ?_)
  obtain ⟨hx, hy⟩ := (add_eq_zero_iff_of_nonneg (sq_nonneg _) (sq_nonneg _)).mp hzero.symm
  exact congrArg₂ PlanePoint.mk (sub_eq_zero.mp ((pow_eq_zero_iff two_ne_zero).mp hx))
    (sub_eq_zero.mp ((pow_eq_zero_iff two_ne_zero).mp hy))

/-- A position is its distance away in its direction. -/
theorem distance_mul_cos_direction (origin p : PlanePoint ℝ) :
    distance p origin * Real.cos (direction origin p) = p.x - origin.x :=
  hypot_mul_cos_atan2 _ _

theorem distance_mul_sin_direction (origin p : PlanePoint ℝ) :
    distance p origin * Real.sin (direction origin p) = p.y - origin.y :=
  hypot_mul_sin_atan2 _ _

/-- The position itself is the point of its circle in its direction. -/
theorem pointAt_direction {a : Arc ℝ} {p : PlanePoint ℝ} (h : distance p a.center = a.radius) :
    pointAt a (direction a.center p) = ⟨p.x, p.y, a.z⟩ := by
  rw [pointAt_eq, ← h, distance_mul_cos_direction, distance_mul_sin_direction, add_sub_cancel,
    add_sub_cancel]

/-- Every point of a circle is on it. -/
theorem distance_pointAt {a : Arc ℝ} (h : 0 ≤ a.radius) (angle : ℝ) :
    distance (pointAt a angle).foot a.center = a.radius := by
  have hsquares :
      (a.radius * Real.cos angle) ^ 2 + (a.radius * Real.sin angle) ^ 2 = a.radius ^ 2 := by
    rw [mul_pow, mul_pow, ← mul_add, Real.cos_sq_add_sin_sq, mul_one]
  rw [distance_eq, pointAt_eq, Point.foot, add_sub_cancel_left, add_sub_cancel_left, hsquares,
    Real.sqrt_sq h]

/-- **Unwinding an angle moves no point.** -/
theorem pointAt_unwind (a : Arc ℝ) (s e : ℝ) (clockwise : Bool) :
    pointAt a (@Arc.unwind ℝ scalar s e clockwise) = pointAt a e := by
  have hturn : Real.cos (@Arc.unwind ℝ scalar s e clockwise) = Real.cos e ∧
      Real.sin (@Arc.unwind ℝ scalar s e clockwise) = Real.sin e := by
    rcases @Arc.unwind_cases ℝ scalar s e clockwise with h | h
    · rw [h]
      exact ⟨rfl, rfl⟩
    · rw [h]
      cases clockwise
      · exact ⟨Real.cos_add_two_pi e, Real.sin_add_two_pi e⟩
      · exact ⟨Real.cos_sub_two_pi e, Real.sin_sub_two_pi e⟩
  rw [pointAt_eq, pointAt_eq, hturn.1, hturn.2]

/-- **The point in the direction of a position**: seen from the centre it is the position, scaled to
the circle. -/
theorem pointAt_direction_sub {a : Arc ℝ} {p : PlanePoint ℝ} (h : p ≠ a.center) :
    0 < distance p a.center ∧
      (pointAt a (direction a.center p)).x - a.center.x =
        a.radius / distance p a.center * (p.x - a.center.x) ∧
      (pointAt a (direction a.center p)).y - a.center.y =
        a.radius / distance p a.center * (p.y - a.center.y) := by
  have hpos := distance_pos h
  refine ⟨hpos, ?_, ?_⟩
  · rw [pointAt_eq, ← distance_mul_cos_direction, ← mul_assoc, div_mul_cancel₀ _ hpos.ne',
      add_sub_cancel_left]
  · rw [pointAt_eq, ← distance_mul_sin_direction, ← mul_assoc, div_mul_cancel₀ _ hpos.ne',
      add_sub_cancel_left]

/-! ## 2. The arc of a command -/

/-- The arc of a command, exactly. -/
noncomputable abbrev resolve (start : Point ℝ) (c : Command ℝ) (clockwise : Bool) : Arc ℝ :=
  @Arc.resolve ℝ scalar start c clockwise

/-- Where an arc ends, exactly. -/
noncomputable abbrev endPoint (a : Arc ℝ) : Point ℝ := @Segment.endPoint ℝ scalar (.arc a)

theorem radius_resolve (start : Point ℝ) (c : Command ℝ) (clockwise : Bool) :
    distance start.foot (resolve start c clockwise).center = (resolve start c clockwise).radius :=
  rfl

theorem endPoint_resolve (start : Point ℝ) (c : Command ℝ) (clockwise : Bool) :
    let a := resolve start c clockwise
    endPoint a = pointAt a (direction a.center c.target.foot) :=
  pointAt_unwind _ _ _ _

/-- **The arc of a command joins the tool path.**

It starts at the start of the command.  It ends on its circle, at the height of the start and, seen
from the centre, in the direction of the target; that is the point of the circle at the angle of the
target before unwinding.  It ends where the tool is next exactly if the target is on the circle. -/
theorem resolve_joins (start : Point ℝ) (c : Command ℝ) (clockwise : Bool) :
    let a := resolve start c clockwise
    @Segment.startPoint? ℝ scalar (.arc a) = some start ∧
    (distance (endPoint a).foot a.center = a.radius ∧ (endPoint a).z = start.z) ∧
    (c.target.foot ≠ a.center →
      0 < distance c.target.foot a.center ∧
      (endPoint a).x - a.center.x =
        a.radius / distance c.target.foot a.center * (c.target.x - a.center.x) ∧
      (endPoint a).y - a.center.y =
        a.radius / distance c.target.foot a.center * (c.target.y - a.center.y)) ∧
    endPoint a = pointAt a (direction a.center c.target.foot) ∧
    (endPoint a = ⟨c.target.x, c.target.y, start.z⟩ ↔
      distance c.target.foot a.center = a.radius) ∧
    (c.code.travel? = some (.circular clockwise) →
      @step ℝ scalar (some start) c = (some ⟨c.target.x, c.target.y, start.z⟩, some (.arc a))) := by
  intro a
  have hradius : distance start.foot a.center = a.radius := radius_resolve start c clockwise
  have hnonneg : 0 ≤ a.radius := hradius ▸ Real.sqrt_nonneg _
  have hend : endPoint a = pointAt a (direction a.center c.target.foot) :=
    endPoint_resolve start c clockwise
  have hcircle : distance (endPoint a).foot a.center = a.radius := by
    rw [hend]
    exact distance_pointAt hnonneg _
  refine ⟨congrArg some (pointAt_direction hradius), ⟨hcircle, rfl⟩, fun hne => ?_, hend,
    ⟨fun h => ?_, fun h => ?_⟩, fun hcode => ?_⟩
  · rw [hend]
    exact pointAt_direction_sub hne
  · rw [← hcircle, h]
    rfl
  · rw [hend, pointAt_direction h]
    rfl
  · unfold step
    rw [hcode]

/-- Half a circle from (10, 0) to the origin, which is as far from the centre. -/
theorem resolve_joins_half_circle :
    let c : Command ℝ := ⟨.preparatory 2, ⟨0, 0, 7⟩, ⟨-5, 0⟩, 0, 1, []⟩
    let a := resolve ⟨10, 0, 3⟩ c true
    endPoint a = ⟨0, 0, 3⟩ ∧
      (endPoint a).x - a.center.x = a.radius / distance ⟨0, 0⟩ a.center * (0 - a.center.x) ∧
      @step ℝ scalar (some ⟨10, 0, 3⟩) c = (some ⟨0, 0, 3⟩, some (.arc a)) := by
  intro c a
  obtain ⟨-, -, hdirection, -, hjoin, hstep⟩ := resolve_joins ⟨10, 0, 3⟩ c true
  have hcenter : a.center = ⟨5, 0⟩ :=
    congrArg₂ PlanePoint.mk (by norm_num : (10 : ℝ) + -5 = 5) (add_zero 0)
  have hradius : distance ⟨0, 0⟩ a.center = a.radius := by
    rw [show a.radius = distance ⟨10, 0⟩ a.center from rfl, hcenter, distance_eq, distance_eq]
    norm_num
  have hne : (⟨0, 0⟩ : PlanePoint ℝ) ≠ a.center := by
    rw [hcenter]
    simp
  exact ⟨hjoin.mpr hradius, (hdirection hne).2.1, hstep rfl⟩

end Motion.Exact
