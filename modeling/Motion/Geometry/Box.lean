/-
# Boxes

A box is given by its least and its greatest corner.  The empty box is turned inside out: its least
corner is as great as can be and its greatest as small, so that including a point needs no special
case, and a box is valid once it is no longer turned inside out and all its faces are finite.
A coordinate that is not a number moves no face.
-/
import Motion.Geometry.Point

namespace Motion

/-- A box with its faces parallel to the axes. -/
structure Box (α : Type) where
  low : Point α
  high : Point α
  deriving Repr, DecidableEq

namespace Box

variable {α : Type} [Scalar α]

/-- The box that holds nothing. -/
def empty : Box α :=
  let top : α := Scalar.largest
  ⟨⟨top, top, top⟩, ⟨-top, -top, -top⟩⟩

/-- The least box around a box and a point. -/
def insert (b : Box α) (p : Point α) : Box α :=
  ⟨⟨Scalar.least b.low.x p.x, Scalar.least b.low.y p.y, Scalar.least b.low.z p.z⟩,
   ⟨Scalar.greatest b.high.x p.x, Scalar.greatest b.high.y p.y, Scalar.greatest b.high.z p.z⟩⟩

/-- The least box around some points. -/
def around (points : List (Point α)) : Box α := points.foldl insert empty

/-- All faces are finite and no two opposite ones have changed sides; they may coincide. -/
def isValid (b : Box α) : Bool :=
  Scalar.isFinite b.low.x && Scalar.isFinite b.high.x && Scalar.isFinite b.low.y &&
    Scalar.isFinite b.high.y && Scalar.isFinite b.low.z && Scalar.isFinite b.high.z &&
    Scalar.le b.low.x b.high.x && Scalar.le b.low.y b.high.y && Scalar.le b.low.z b.high.z

/-- The extent along X. -/
def width (b : Box α) : α := b.high.x - b.low.x

/-- The extent along Y. -/
def height (b : Box α) : α := b.high.y - b.low.y

/-- The extent along Z. -/
def depth (b : Box α) : α := b.high.z - b.low.z

/-- The middle of the box. -/
def center (b : Box α) : Point α :=
  ⟨(b.low.x + b.high.x) / Scalar.two, (b.low.y + b.high.y) / Scalar.two,
   (b.low.z + b.high.z) / Scalar.two⟩

end Box
end Motion
