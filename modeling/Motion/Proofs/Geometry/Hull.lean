/-
# A box is the hull of its points

A box grows from one that is turned inside out, and the values in which that one has its faces are
no values out of reach: a point can have them for coordinates.  So a face in its first place may
have found nothing yet, or may have been put there by a point, and the box does not know which.

With finite coordinates it need not know.  There is no coordinate beyond the greatest finite value,
so a face that never moved is where the outermost point has it anyway.

* A box is valid from its first point on, and invalid before (`isValid_around_iff`).
* Its faces are at the least and at the greatest coordinate along each axis (`IsHull`).
* A face of the box around two lists is a face of the box around one of them, the one further out
  (`value_around_append`).  For this the coordinates need not be finite.

The order in which points come, and whether some come again, makes no difference, because a box
depends on what occurs and on nothing else (`Motion.Proofs.Geometry.Box`).
-/
import Mathlib.Order.Bounds.Basic
import Motion.Proofs.Geometry.Box
import Motion.Proofs.Number.Products

namespace Motion

section Laws

variable {α : Type} [Scalar α] {value : α → EReal} {round : EReal → EReal}

/-! ## 1. The extreme of two lists -/

/-- **The extreme of two lists** comes before those of both lists, and does not come behind both. -/
theorem Scalar.Picks.foldl_append {before : EReal → EReal → Prop} [IsPreorder EReal before]
    {pick : α → α → α} (h : Picks value before pick) {a : α} (ha : isNaN a = false)
    (l l' : List α) :
    let extreme := value ((l ++ l').foldl pick a)
    before extreme (value (l.foldl pick a)) ∧ before extreme (value (l'.foldl pick a)) ∧
      (before (value (l.foldl pick a)) extreme ∨ before (value (l'.foldl pick a)) extreme) := by
  intro extreme
  obtain ⟨-, hstart, hall, -⟩ := h.foldl ha l
  obtain ⟨-, -, hall', -⟩ := h.foldl ha l'
  obtain ⟨hnumber, -, -, hfound⟩ := h.foldl ha (l ++ l')
  refine ⟨h.foldl_before ha ?_, h.foldl_before ha ?_, ?_⟩
  · rintro v ⟨b, hb, hvalue⟩
    exact ⟨b, List.mem_append_left l' hb, hvalue⟩
  · rintro v ⟨b, hb, hvalue⟩
    exact ⟨b, List.mem_append_right l hb, hvalue⟩
  · rcases hfound with heq | hmem
    · -- nothing was found, in neither list
      refine Or.inl ?_
      simp only [extreme, heq]
      exact hstart
    · rcases List.mem_append.mp hmem with hmem | hmem
      · exact Or.inl (hall _ hmem hnumber)
      · exact Or.inr (hall' _ hmem hnumber)

namespace Box

/-! ## 2. Hulls -/

/-- The faces of the box are at the least and at the greatest coordinate of some points, along every
axis. -/
def IsHull (value : α → EReal) (b : Box α) (points : List (Point α)) : Prop :=
  ∀ axis,
    IsLeast {v | ∃ p ∈ points, value (p.along axis) = v} (value (b.low.along axis)) ∧
      IsGreatest {v | ∃ p ∈ points, value (p.along axis) = v} (value (b.high.along axis))

/-- Where the same points occur the same numbers do. -/
theorem SameAlong.of_mem_iff {points points' : List (Point α)}
    (h : ∀ p, p ∈ points' ↔ p ∈ points) (axis : Axis) : SameAlong value points' points axis := by
  intro v
  simp only [Scalar.Occurs, List.mem_map, h]

variable {points : List (Point α)}
  (hr : Scalar.Rounding value round) (hg : Scalar.Ranged value)
include hr hg

/-- A valid box is the hull of its points. -/
theorem isHull_around (hvalid : (around points).isValid) (hn : ∀ p ∈ points, p.IsNumber) :
    (around points).IsHull value points := by
  intro axis
  obtain ⟨-, hle, -⟩ := low_around hr hg points axis
  obtain ⟨-, hge, -⟩ := high_around hr hg points axis
  refine ⟨⟨exists_low hr hg hvalid hn axis, ?_⟩, ⟨exists_high hr hg hvalid hn axis, ?_⟩⟩
  · rintro v ⟨p, hp, rfl⟩
    exact hle p hp (hn p hp axis)
  · rintro v ⟨p, hp, rfl⟩
    exact hge p hp (hn p hp axis)

/-- **A box of finite points is valid exactly if there is a point.** -/
theorem isValid_around_iff (hfinite : ∀ p ∈ points, ∀ axis, Scalar.isFinite (p.along axis)) :
    (around points).isValid ↔ points ≠ [] := by
  constructor
  · intro hvalid
    obtain ⟨p, hp⟩ := exists_mem_of_isValid hr hg hvalid
    exact List.ne_nil_of_mem hp
  · intro hne
    exact isValid_around hr hg hne hfinite

/-- **The box around two lists** has, of each face, the one further out. -/
theorem value_around_append (points more : List (Point α)) (axis : Axis) :
    value ((around (points ++ more)).low.along axis) =
        min (value ((around points).low.along axis)) (value ((around more).low.along axis)) ∧
      value ((around (points ++ more)).high.along axis) =
        max (value ((around points).high.along axis)) (value ((around more).high.along axis)) := by
  have hlargest := hr.isNaN_of_isFinite hg.isFinite_largest
  have hsmallest := hr.isNaN_of_isFinite hg.isFinite_neg_largest
  simp only [around, along_foldl_insert, along_empty, List.map_append]
  constructor
  · obtain ⟨hle, hle', hreached⟩ := (Scalar.picks_least hr hg).foldl_append hlargest
      (points.map (Point.along · axis)) (more.map (Point.along · axis))
    exact le_antisymm (le_min hle hle') (min_le_iff.mpr hreached)
  · obtain ⟨hge, hge', hreached⟩ := (Scalar.picks_greatest hr hg).foldl_append hsmallest
      (points.map (Point.along · axis)) (more.map (Point.along · axis))
    exact le_antisymm (le_max_iff.mpr hreached) (max_le hge hge')

end Box

end Laws

/-! ## 3. Double precision -/

open Double (value)

/-- **A box is the hull of its points**, in double precision.

The coordinates of all points are finite; the greatest double and its opposite, in which the empty
box has its faces, are among those allowed.  While the points come one by one, the box is valid as
soon as one has come, and from then on.  It holds every point, and each of its faces is at the least
or at the greatest coordinate of the points along its axis.  Its faces stay in place if the points
come in another order or some of them more often.  Behind two lists, each face is where the box of
one of them has it, whichever is further out; this is so for empty lists, too. -/
theorem boxes_are_hulls (points : List (Point Float))
    (hfinite : ∀ p ∈ points, ∀ axis, (p.along axis).isFinite) :
    (∀ seen, seen <+: points → ((Box.around seen).isValid ↔ seen ≠ [])) ∧
    (∀ p ∈ points, (Box.around points).Contains p) ∧
    (points ≠ [] → (Box.around points).IsHull value points) ∧
    (∀ points', (∀ p, p ∈ points' ↔ p ∈ points) → ∀ axis,
      value ((Box.around points').low.along axis) = value ((Box.around points).low.along axis) ∧
      value ((Box.around points').high.along axis) =
        value ((Box.around points).high.along axis)) ∧
    ∀ more axis,
      value ((Box.around (points ++ more)).low.along axis) =
        min (value ((Box.around points).low.along axis))
          (value ((Box.around more).low.along axis)) ∧
      value ((Box.around (points ++ more)).high.along axis) =
        max (value ((Box.around points).high.along axis))
          (value ((Box.around more).high.along axis)) := by
  have hr : Scalar.Rounding value Double.round := Double.rounding_double Float.atan2
  have hg : Scalar.Ranged value := Double.ranged_withCircle Float.sin Float.cos
  have hnumber : ∀ p ∈ points, p.IsNumber := by
    intro p hp axis
    exact hr.isNaN_of_isFinite (hfinite p hp axis)
  refine ⟨?valid, ?contains, ?hull, ?order, Box.value_around_append hr hg points⟩
  case valid =>
    intro seen hseen
    exact Box.isValid_around_iff hr hg fun p hp => hfinite p (hseen.subset hp)
  case contains =>
    intro p hp
    exact Box.contains_around hr hg hp (hnumber p hp)
  case hull =>
    intro hne
    exact Box.isHull_around hr hg (Box.isValid_around hr hg hne hfinite) hnumber
  case order =>
    intro points' hsame axis
    exact Box.value_around_congr hr hg (Box.SameAlong.of_mem_iff hsame axis)

/-- Two points as far out along X as can be, on one side: the lower face is where the empty box has
it, and rightly so.  Along Y one of the points is where the upper face began. -/
theorem boxes_are_hulls_greatest_coordinate :
    let top : Float := Scalar.largest
    let points : List (Point Float) := [⟨top, -top, 1⟩, ⟨top, -0.0, -5⟩]
    (∀ p ∈ points, ∀ axis, (p.along axis).isFinite) ∧
    ¬(Box.around ([] : List (Point Float))).isValid ∧
    (Box.around [⟨top, -top, 1⟩]).isValid ∧
    Box.around points = ⟨⟨top, -top, -5⟩, ⟨top, -0.0, 1⟩⟩ ∧
    (Box.around points).Contains ⟨top, -0.0, -5⟩ ∧
    (Box.around points).IsHull value points ∧
    value (Box.around (points.reverse ++ points)).low.x = value top ∧
    value (Box.around (points ++ [⟨0, 0, 0⟩])).low.x = min (value top) (value 0) := by
  intro top points
  have hfinite : ∀ p ∈ points, ∀ axis, (p.along axis).isFinite := by
    simp only [points, List.forall_mem_cons, List.not_mem_nil, false_imp_iff, implies_true,
      and_true, Axis.forall]
    decide +kernel
  have haround : Box.around points = ⟨⟨top, -top, -5⟩, ⟨top, -0.0, 1⟩⟩ := by decide +kernel
  have hzero : Box.around [⟨0, 0, 0⟩] = (⟨⟨0, 0, 0⟩, ⟨0, 0, 0⟩⟩ : Box Float) := by decide +kernel
  obtain ⟨hvalid, hcontains, hhull, horder, happend⟩ := boxes_are_hulls points hfinite
  have htwice := (horder (points.reverse ++ points) (by simp) .x).1
  have hmore := (happend [⟨0, 0, 0⟩] .x).1
  rw [haround] at htwice
  rw [haround, hzero] at hmore
  refine ⟨hfinite, fun h => (hvalid [] List.nil_prefix).mp h rfl, ?_, haround,
    hcontains _ (by simp [points]), hhull (List.cons_ne_nil _ _), htwice, hmore⟩
  exact (hvalid _ ⟨[⟨top, -0.0, -5⟩], rfl⟩).mpr (List.cons_ne_nil _ _)

end Motion
