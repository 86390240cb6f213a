/-
# Arcs that end where they start

An arc whose target is its start should not move: its two angles are equal, and equal angles are
left alone.  But a target is the start as soon as it has the same coordinates, and `-0` is the same
coordinate as `0`.  Seen from the centre the two may then be zeros of different signs, and that is a
difference at which an angle jumps.

| start seen from the centre      | angles of start and target             |
|---------------------------------|----------------------------------------|
| not level with it               | the same                               |
| level, to the right             | zeros, which are equal                 |
| level, to the left              | a half turn each, forth or back        |
| in it (a circle without radius) | each a zero or a half turn             |

In the third row one angle may be a half turn and the other one a half turn back.  If the arc then
has to turn from the first to the second as it is commanded, it is not left alone and does not come
out as zero: it is the whole circle (`coincident_whole_circle`).  `Arc.Overruns` says exactly when
that happens, and `coincident_sweep` that nothing else does.
-/
import Motion.Proofs.Number.Angle
import Motion.Toolpath.Segment
import Motion.Toolpath.Resolution

namespace Motion

open Double (withAtan2 AxisAngles axisAngle isNegative halfTurn value)

/-! ## 1. Directions that are level -/

/-- The sweep of an arc that starts and ends where its coordinates differ at most in the signs of
zeros is not zero: the X coordinates, seen from the centre, are zeros of different signs, or both
are to the left and the target is a zero of the sign that the commanded direction leads to. -/
def Arc.Overruns (clockwise : Bool) (s t : PlanePoint Float) : Prop :=
  s.y == 0 ∧ (isNegative s.x ≠ isNegative t.x ∨
    isNegative s.x = true ∧ isNegative s.y ≠ isNegative t.y ∧ isNegative t.y = clockwise)

instance (clockwise : Bool) (s t : PlanePoint Float) :
    Decidable (Arc.Overruns clockwise s t) :=
  inferInstanceAs (Decidable (_ ∧ (_ ∨ _ ∧ _ ∧ _)))

/-- The angle of a level direction. -/
def levelAngle (y : Float) (back : Bool) : Float :=
  if back then halfTurn (isNegative y) else y

/-- **All angles that level directions can have.** -/
theorem sweep_of_level : ∀ clockwise back back' : Bool,
    ∀ y ∈ [(0 : Float), -0], ∀ y' ∈ [(0 : Float), -0],
      (Arc.unwind (levelAngle y back) (levelAngle y' back') clockwise - levelAngle y back == 0) ↔
        ¬(back ≠ back' ∨
          back = true ∧ isNegative y ≠ isNegative y' ∧ isNegative y' = clockwise) := by
  decide +kernel

/-! ## 2. Coordinates that are equal -/

theorem beq_zero_iff {a : Float} : a == 0 ↔ a ∈ [(0 : Float), -0] := by
  constructor
  · intro h
    obtain ⟨-, -, rfl | ⟨rfl, -⟩ | ⟨rfl, -⟩⟩ := Float.beq_iff_ne_nan_and_eq.mp h
    all_goals simp
  · have hzeros : ∀ a ∈ [(0 : Float), -0], a == 0 := by decide +kernel
    exact hzeros a

theorem eq_or_zeros_of_beq {a b : Float} (h : a == b) :
    a = b ∨ a ∈ [(0 : Float), -0] ∧ b ∈ [(0 : Float), -0] := by
  obtain ⟨-, -, rfl | ⟨rfl, rfl⟩ | ⟨rfl, rfl⟩⟩ := Float.beq_iff_ne_nan_and_eq.mp h
  all_goals simp

theorem value_eq_of_beq {a b : Float} (h : a == b) :
    a.isNaN = false ∧ b.isNaN = false ∧ value a = value b := by
  have hnumbers : a.isNaN = false ∧ b.isNaN = false := by
    simp [Float.beq_iff_ne_nan_and_eq.mp h]
  exact ⟨hnumbers.1, hnumbers.2, (Double.beq_iff_value hnumbers.1 hnumbers.2).mp h⟩

theorem isFinite_of_beq {a b : Float} (h : a == b) (hb : b.isFinite) : a.isFinite := by
  rcases eq_or_zeros_of_beq h with rfl | ⟨ha, -⟩
  · exact hb
  · have hzeros : ∀ a ∈ [(0 : Float), -0], a.isFinite := by decide +kernel
    exact hzeros a ha

/-- Equal coordinates are equal seen from any centre. -/
theorem sub_beq_sub {a b c : Float} (ha : a.isFinite) (hb : b.isFinite) (hc : c.isNaN = false)
    (h : a == b) : a - c == b - c := by
  have han := Double.isNaN_of_isFinite ha
  have hbn := Double.isNaN_of_isFinite hb
  obtain ⟨hac, hva⟩ := Double.value_sub han hc (Or.inl ha)
  obtain ⟨hbc, hvb⟩ := Double.value_sub hbn hc (Or.inl hb)
  rw [Double.beq_iff_value hac hbc, hva, hvb, (value_eq_of_beq h).2.2]

variable {angle : Float → Float → Float} (hangle : AxisAngles angle)
include hangle

/-- Directions that are equal and not level have one angle. -/
theorem angle_eq_of_not_level {y y' x x' : Float} (hy : y == y') (hx : x == x')
    (hlevel : (y == 0) = false) : angle y x = angle y' x' := by
  have heq : y = y' := by
    rcases eq_or_zeros_of_beq hy with heq | ⟨hzero, -⟩
    · exact heq
    · exact absurd (beq_zero_iff.mpr hzero) (Bool.eq_false_iff.mp hlevel)
  have hzeros : ∀ z ∈ [(0 : Float), -0], angle y z = angle y 0 := by
    intro z hz
    rcases List.mem_pair.mp hz with rfl | rfl
    · rfl
    · exact (hangle.plumb hlevel).symm
  rw [← heq]
  rcases eq_or_zeros_of_beq hx with rfl | ⟨hzero, hzero'⟩
  · rfl
  · rw [hzeros x hzero, hzeros x' hzero']

/-! ## 3. The sweep -/

omit hangle in
/-- Equal angles are left alone, and an angle less itself is zero. -/
theorem unwind_self_sub {θ : Float} (hθ : θ.isFinite) (clockwise : Bool) :
    Arc.unwind θ θ clockwise - θ == 0 := by
  have hlt : Scalar.lt θ θ = false := by
    have hnan := Double.isNaN_of_isFinite hθ
    exact decide_eq_false fun h => lt_irrefl _ ((Double.lt_iff_value hnan hnan).mp h)
  have hunwind : Arc.unwind θ θ clockwise = θ := by simp [Arc.unwind, hlt]
  rw [hunwind]
  exact Double.sub_self_beq_zero hθ

/-- **The sweep between equal coordinates** seen from the centre. -/
theorem sweep_beq_zero_iff {s t : PlanePoint Float} (hx : s.x == t.x) (hy : s.y == t.y)
    (clockwise : Bool) :
    (Arc.unwind (angle s.y s.x) (angle t.y t.x) clockwise - angle s.y s.x == 0) ↔
      ¬Arc.Overruns clockwise s t := by
  obtain ⟨hsx, htx, -⟩ := value_eq_of_beq hx
  obtain ⟨hsy, -, -⟩ := value_eq_of_beq hy
  cases hlevel : s.y == 0 with
  | false =>
    rw [← angle_eq_of_not_level hangle hy hx hlevel]
    exact iff_of_true (unwind_self_sub (hangle.isFinite hsy hsx) clockwise)
      fun h => Bool.false_ne_true (hlevel.symm.trans h.1)
  | true =>
    have hs : s.y ∈ [(0 : Float), -0] := beq_zero_iff.mp hlevel
    have ht : t.y ∈ [(0 : Float), -0] := by
      rcases eq_or_zeros_of_beq hy with heq | ⟨-, ht⟩
      · exact heq ▸ hs
      · exact ht
    rw [hangle.level hlevel hsx, hangle.level (beq_zero_iff.mpr ht) htx]
    refine (sweep_of_level clockwise _ _ s.y hs t.y ht).trans (not_congr ?_)
    rw [Arc.Overruns, hlevel, and_iff_right rfl]

/-! ## 4. The arc of a command -/

/-- **Arcs that end where they start.**  The target has the same X and Y as the start, up to the
sign of zeros.  Such an arc has no sweep unless it overruns, and then, if its radius is finite, no
length either.  It never overruns if the target is the start in every bit. -/
theorem coincident_sweep {start : Point Float} (hstart : start.x.isFinite ∧ start.y.isFinite)
    {c : Command Float} (hoffset : c.offset.x.isFinite ∧ c.offset.y.isFinite)
    (hcoincident : c.target.x == start.x ∧ c.target.y == start.y) (clockwise : Bool) :
    let a := @Arc.resolve Float (withAtan2 angle) start c clockwise
    (a.sweep == 0 ↔
      ¬Arc.Overruns clockwise ⟨start.x - a.center.x, start.y - a.center.y⟩
        ⟨c.target.x - a.center.x, c.target.y - a.center.y⟩) ∧
    (a.radius.isFinite → a.sweep == 0 → a.length == 0) ∧
    (c.target.foot = start.foot → a.sweep == 0) := by
  intro a
  have hcenter {x i : Float} (hx : x.isFinite) (hi : i.isFinite) : (x + i).isNaN = false :=
    (Double.value_add (Double.isNaN_of_isFinite hx) (Double.isNaN_of_isFinite hi) (Or.inl hx)).1
  have hseen {x i x' : Float} (hx : x.isFinite) (hi : i.isFinite) (h : x' == x) :
      x - (x + i) == x' - (x + i) :=
    sub_beq_sub hx (isFinite_of_beq h hx) (hcenter hx hi) (BEq.symm h)
  have hsweep := sweep_beq_zero_iff hangle
    (s := ⟨start.x - a.center.x, start.y - a.center.y⟩)
    (t := ⟨c.target.x - a.center.x, c.target.y - a.center.y⟩)
    (hseen hstart.1 hoffset.1 hcoincident.1) (hseen hstart.2 hoffset.2 hcoincident.2) clockwise
  refine ⟨hsweep, fun hr hzero => ?_, fun hfoot => hsweep.mpr ?_⟩
  · have habs : ∀ z ∈ [(0 : Float), -0], z.abs = 0 := by decide +kernel
    have hlength : a.length = a.radius * a.sweep.abs := rfl
    rw [hlength, habs _ (beq_zero_iff.mp hzero)]
    exact Double.mul_zero_beq_zero hr
  · obtain ⟨hx, hy⟩ := PlanePoint.mk.inj hfoot
    rintro ⟨-, h | ⟨-, h, -⟩⟩
    · exact h (by rw [hx])
    · exact h (by rw [hy])

omit hangle in
/-- From the origin to `(0, -0)` about (1, 0): counter-clockwise the arc does not move, clockwise it
overruns. -/
theorem coincident_sweep_both_directions :
    let c : Command Float := ⟨.preparatory 3, ⟨0, -0, 0⟩, ⟨1, 0⟩, 0, 1, "G3 X0 Y-0 I1".toList⟩
    let a := @Arc.resolve Float (withAtan2 axisAngle) ⟨0, 0, 0⟩ c
    ((a false).sweep == 0 ∧ (a false).length == 0) ∧ ¬((a true).sweep == 0) := by
  intro c a
  have hcoincident : c.target.x == 0 ∧ c.target.y == 0 := by decide +kernel
  have hfinite : (0 : Float).isFinite ∧ (1 : Float).isFinite := by decide +kernel
  obtain ⟨hleft, hlength, -⟩ := @coincident_sweep axisAngle Double.axisAngles_axisAngle ⟨0, 0, 0⟩
    ⟨hfinite.1, hfinite.1⟩ c ⟨hfinite.2, hfinite.1⟩ hcoincident false
  obtain ⟨hright, -, -⟩ := @coincident_sweep axisAngle Double.axisAngles_axisAngle ⟨0, 0, 0⟩
    ⟨hfinite.1, hfinite.1⟩ c ⟨hfinite.2, hfinite.1⟩ hcoincident true
  have hzero := hleft.mpr (by decide +kernel)
  refine ⟨⟨hzero, hlength (by decide +kernel) hzero⟩, fun h => hright.mp h (by decide +kernel)⟩

omit hangle in
/-- **An arc that ends where it starts can be a whole circle.**  The centre is at (1, 0), the start
at the origin and the target at `(0, -0)`: the angle of the start is a half turn and that of the
target a half turn back, and clockwise that is a whole turn. -/
theorem coincident_whole_circle :
    let c : Command Float := ⟨.preparatory 2, ⟨0, -0, 0⟩, ⟨1, 0⟩, 0, 1, "G2 X0 Y-0 I1".toList⟩
    let a := @Arc.resolve Float (withAtan2 axisAngle) ⟨0, 0, 0⟩ c true
    (c.target.x == 0 ∧ c.target.y == 0) ∧ a.center = ⟨1, 0⟩ ∧ a.radius = 1 ∧
      a.startAngle = halfTurn false ∧ a.endAngle = halfTurn true ∧
      a.sweep = -Scalar.turn ∧ a.length = Scalar.turn := by
  decide +kernel

end Motion
