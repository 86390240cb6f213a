/-
# The arc of a command

An arc command gives the centre of the circle as an offset from where the tool is, and a target.
The radius is the distance of the start from the centre; the target fixes no more than the angle at
which the arc ends, so it need not lie on the circle.  A full turn is added to that angle or taken
from it where the arc would otherwise run against the commanded direction.  Equal angles are left
alone: such an arc does not move.
-/
import Motion.Toolpath.Arc
import Motion.Program.Command

namespace Motion.Arc

variable {α : Type} [Scalar α]

/-- An end angle, shifted by one turn if the way to it from the start angle would have the wrong
direction. -/
def unwind (startAngle endAngle : α) (clockwise : Bool) : α :=
  if clockwise && Scalar.lt startAngle endAngle then endAngle - Scalar.turn
  else if !clockwise && Scalar.lt endAngle startAngle then endAngle + Scalar.turn
  else endAngle

/-- The direction from one position in the plane to another. -/
def direction (origin p : PlanePoint α) : α := Scalar.atan2 (p.y - origin.y) (p.x - origin.x)

/-- The arc of a command that starts at a position. -/
def resolve (start : Point α) (c : Command α) (clockwise : Bool) : Arc α :=
  let center : PlanePoint α := ⟨start.x + c.offset.x, start.y + c.offset.y⟩
  let startAngle := direction center start.foot
  { center := center
    radius := start.foot.distance center
    z := start.z
    startAngle := startAngle
    endAngle := unwind startAngle (direction center c.target.foot) clockwise
    clockwise := clockwise }

end Motion.Arc
