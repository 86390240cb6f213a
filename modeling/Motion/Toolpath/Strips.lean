/-
# Strips

What is drawn of a tool path: connected strips of vertices.  A cutting segment goes on with the
strip before it if it starts where that one ends, within a millionth, and its first vertex is then
left out; otherwise it starts a strip of its own.  A move is not drawn, and it ends the strip.
-/
import Motion.Toolpath.Sampling

namespace Motion

variable {α : Type} [Scalar α]

/-- Strips under construction: the finished ones, and the one that may still grow. -/
structure Drawing (α : Type) where
  finished : Array (List (Point α))
  current : Array (Point α)
  deriving Repr, DecidableEq

namespace Drawing

/-- Nothing is drawn yet. -/
def empty : Drawing α := ⟨#[], #[]⟩

/-- The current strip is finished; one with less than two vertices is dropped. -/
def finish (d : Drawing α) : Drawing α :=
  ⟨if 1 < d.current.size then d.finished.push d.current.toList else d.finished, #[]⟩

/-- The distance within which two vertices meet. -/
def joinDistance : α := Scalar.ofDecimal false 1 (-6)

/-- The current strip ends at a vertex. -/
def endsAt (d : Drawing α) (p : Point α) : Bool :=
  match d.current.back? with
  | some last => Scalar.le (last.distance p) joinDistance
  | none => false

/-- One more segment, with the given number of steps for an arc. -/
def add (n : Nat) (d : Drawing α) (segment : Segment α) : Drawing α :=
  if !segment.isCutting then d.finish
  else
    match segment.vertices n with
    | [] => d.finish
    | p :: rest =>
      if d.endsAt p then { d with current := d.current ++ rest }
      else { d.finish with current := #[p] ++ rest }

end Drawing

/-- The strips of some segments, with the given number of steps for each arc. -/
def strips (n : Nat) (segments : List (Segment α)) : List (List (Point α)) :=
  (segments.foldl (Drawing.add n) .empty).finish.finished.toList

end Motion
