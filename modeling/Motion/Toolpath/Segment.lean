/-
# Segments

What the tool does between two positions: a rapid move, a straight line, or an arc in a plane of
constant Z.  Only lines and arcs cut.  A move knows where it ends and not where it starts.
-/
import Motion.Toolpath.Arc

namespace Motion

/-- One motion of the tool. -/
inductive Segment (α : Type) where
  | move (stop : Point α)
  | line (start stop : Point α)
  | arc (a : Arc α)
  deriving Repr, DecidableEq

variable {α : Type} [Scalar α]

namespace Segment

/-- The sweep of an arc. -/
def sweep? : Segment α → Option α
  | arc a => some a.sweep
  | _ => none

/-- Where the segment starts, as far as it says so itself. -/
def startPoint? : Segment α → Option (Point α)
  | move _ => none
  | line start _ => some start
  | arc a => some (a.pointAt a.startAngle)

/-- Where the segment ends; for an arc, the point of its circle at the end angle. -/
def endPoint : Segment α → Point α
  | move stop => stop
  | line _ stop => stop
  | arc a => a.pointAt a.endAngle

/-- Lines and arcs cut, moves do not. -/
def isCutting : Segment α → Bool
  | move _ => false
  | _ => true

/-- An arc about a circle that is a point. -/
def isDegenerate : Segment α → Bool
  | arc a => a.isDegenerate
  | _ => false

/-- The length of the cut; 0 of a move. -/
def length : Segment α → α
  | move _ => Scalar.zero
  | line start stop => start.distance stop
  | arc a => a.length

/-- What a segment is called. -/
def label : Segment α → String
  | move _ => "move"
  | line .. => "line"
  | arc a => a.label

end Segment

/-- A segment as a listing shows it. -/
def Segment.display : Segment Float → String
  | .move stop => s!"move -> {stop.display}"
  | .line start stop => s!"line {start.display} -> {stop.display}"
  | .arc a => a.display

end Motion
