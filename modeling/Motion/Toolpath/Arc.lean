/-
# Arcs

An arc is kept as its circle and two angles, at a constant height; nothing is sampled here.  Its
sweep is the difference of the angles, negative for a clockwise arc.
-/
import Motion.Geometry.Point

namespace Motion

/-- An arc about `center`, at height `z`, from one angle to another. -/
structure Arc (α : Type) where
  center : PlanePoint α
  radius : α
  z : α
  startAngle : α
  endAngle : α
  clockwise : Bool
  deriving Repr, DecidableEq

variable {α : Type} [Scalar α]

namespace Arc

/-- The angle from start to end, with its sign. -/
def sweep (a : Arc α) : α := a.endAngle - a.startAngle

/-- The point of the circle at an angle. -/
def pointAt (a : Arc α) (angle : α) : Point α :=
  ⟨a.center.x + a.radius * Scalar.cos angle, a.center.y + a.radius * Scalar.sin angle, a.z⟩

/-- The length of the arc. -/
def length (a : Arc α) : α := a.radius * Scalar.abs a.sweep

/-- The circle is a point. -/
def isDegenerate (a : Arc α) : Bool := Scalar.eq a.radius Scalar.zero

/-- What an arc is called. -/
def label (a : Arc α) : String := if a.clockwise then "arc-cw" else "arc-ccw"

end Arc

/-- An arc as a listing shows it: three places for lengths and four for angles. -/
def Arc.display (a : Arc Float) : String :=
  s!"{a.label} center=({Double.fixed 3 a.center.x}, {Double.fixed 3 a.center.y}) " ++
    s!"r={Double.fixed 3 a.radius} z={Double.fixed 3 a.z} " ++
    s!"{Double.fixed 4 a.startAngle}..{Double.fixed 4 a.endAngle} rad"

end Motion
