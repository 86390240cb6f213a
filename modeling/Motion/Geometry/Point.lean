/-
# Points

Positions in machine space and in its XY plane.  The two distances differ on purpose: the one in
space is the plain root of the sum of squares, which overflows and underflows with its squares, and
the one in the plane is the hypotenuse, which does not.
-/
import Motion.Number.Rendering

namespace Motion

/-- A position in machine space. -/
structure Point (α : Type) where
  x : α
  y : α
  z : α
  deriving Repr, DecidableEq

/-- A position, or a displacement, in the XY plane. -/
structure PlanePoint (α : Type) where
  x : α
  y : α
  deriving Repr, DecidableEq

variable {α : Type} [Scalar α]

/-- The machine origin. -/
def Point.origin : Point α := ⟨Scalar.zero, Scalar.zero, Scalar.zero⟩

/-- The foot of a position in the XY plane. -/
def Point.foot (p : Point α) : PlanePoint α := ⟨p.x, p.y⟩

/-- The distance of two positions in space. -/
def Point.distance (p q : Point α) : α :=
  let dx := p.x - q.x
  let dy := p.y - q.y
  let dz := p.z - q.z
  Scalar.sqrt (dx * dx + dy * dy + dz * dz)

/-- The distance of two positions in the plane. -/
def PlanePoint.distance (p q : PlanePoint α) : α := Scalar.hypot (p.x - q.x) (p.y - q.y)

/-- A position as a report shows it: three places for each coordinate. -/
def Point.display (p : Point Float) : String :=
  s!"({Double.fixed 3 p.x}, {Double.fixed 3 p.y}, {Double.fixed 3 p.z})"

end Motion
