/-
# Playback

A tool path is its segments and a cursor, the number of segments that are visible.  The cursor never
leaves the range from none to all; the type says so, and every operation keeps it there.  The
segments themselves do not change.
-/
import Motion.Toolpath.Summary
import Motion.Geometry.Box

namespace Motion

/-- Segments, the first `cursor` of them visible. -/
structure Toolpath (α : Type) where
  segments : Array (Segment α)
  cursor : Nat
  cursor_le : cursor ≤ segments.size

namespace Toolpath

variable {α : Type}

/-- A tool path of which nothing is visible yet. -/
def ofSegments (segments : Array (Segment α)) : Toolpath α := ⟨segments, 0, Nat.zero_le _⟩

/-- The number of segments. -/
def size (t : Toolpath α) : Nat := t.segments.size

/-- There are no segments. -/
def isEmpty (t : Toolpath α) : Bool := t.size == 0

/-- All segments are visible. -/
def isComplete (t : Toolpath α) : Bool := t.cursor == t.size

/-- The cursor at an index, or behind the last segment if the index is beyond it. -/
def setIndex (t : Toolpath α) (index : Nat) : Toolpath α :=
  { t with cursor := min index t.size, cursor_le := Nat.min_le_right .. }

/-- One more segment is visible, if there is one. -/
def advance (t : Toolpath α) : Toolpath α :=
  if h : t.cursor < t.segments.size then { t with cursor := t.cursor + 1, cursor_le := h } else t

/-- One segment less is visible, if there is one. -/
def stepBack (t : Toolpath α) : Toolpath α :=
  { t with cursor := t.cursor - 1, cursor_le := Nat.le_trans (Nat.sub_le ..) t.cursor_le }

/-- Nothing is visible. -/
def reset (t : Toolpath α) : Toolpath α := { t with cursor := 0, cursor_le := Nat.zero_le _ }

/-- Everything is visible. -/
def seekEnd (t : Toolpath α) : Toolpath α :=
  { t with cursor := t.segments.size, cursor_le := Nat.le_refl _ }

/-- The visible segments. -/
def visible (t : Toolpath α) : List (Segment α) := (t.segments.extract 0 t.cursor).toList

/-- The segment that became visible last. -/
def current? (t : Toolpath α) : Option (Segment α) :=
  if t.cursor = 0 then none else t.segments[t.cursor - 1]?

variable [Scalar α]

/-- The points that the box of a segment has to reach.  For an arc these are corners of the square
around its whole circle: more than a short arc needs, and never too little. -/
def extremes : Segment α → List (Point α)
  | .move stop => [stop]
  | .line start stop => [start, stop]
  | .arc a =>
    [⟨a.center.x - a.radius, a.center.y - a.radius, a.z⟩,
     ⟨a.center.x + a.radius, a.center.y + a.radius, a.z⟩]

/-- The box around all segments, visible or not, if there is one. -/
def bounds? (t : Toolpath α) : Option (Box α) :=
  let box := Box.around (t.segments.toList.flatMap extremes)
  if box.isValid then some box else none

/-- The summary of all segments. -/
def summary (t : Toolpath α) : Summary α := .ofSegments t.segments.toList

end Toolpath
end Motion
