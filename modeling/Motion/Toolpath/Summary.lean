/-
# Summaries

Counts and lengths over the segments of a tool path.  A rapid move is measured from the end of the
segment before it, the first one from the origin.
-/
import Motion.Toolpath.Segment

namespace Motion

/-- Counts and lengths of some segments. -/
structure Summary (α : Type) where
  moves : Nat
  lines : Nat
  arcs : Nat
  /-- The arcs about a circle that is a point; `arcs` counts them too. -/
  degenerate : Nat
  /-- The length of the lines and arcs. -/
  cutting : α
  /-- The length of the moves. -/
  rapid : α
  deriving Repr, DecidableEq

variable {α : Type} [Scalar α]

namespace Summary

/-- Of no segment at all. -/
def empty : Summary α := ⟨0, 0, 0, 0, Scalar.zero, Scalar.zero⟩

/-- The summary with one more segment, which follows a position. -/
def add (s : Summary α) (last : Point α) : Segment α → Summary α
  | .move stop => { s with moves := s.moves + 1, rapid := s.rapid + last.distance stop }
  | .line start stop =>
    { s with lines := s.lines + 1, cutting := s.cutting + (Segment.line start stop).length }
  | .arc a =>
    { s with
      arcs := s.arcs + 1
      degenerate := if a.isDegenerate then s.degenerate + 1 else s.degenerate
      cutting := s.cutting + a.length }

/-- The summary with more segments, of which the first follows a position. -/
def addAll : Summary α → Point α → List (Segment α) → Summary α
  | s, _, [] => s
  | s, last, segment :: rest => addAll (s.add last segment) segment.endPoint rest

/-- The summary of some segments, from the origin. -/
def ofSegments (segments : List (Segment α)) : Summary α := empty.addAll .origin segments

/-- The number of segments. -/
def total (s : Summary α) : Nat := s.moves + s.lines + s.arcs

/-- A summary as a report shows it: three places for the lengths. -/
def display (s : Summary Float) : String :=
  s!"{s.total} segments (moves={s.moves}, lines={s.lines}, arcs={s.arcs}), " ++
    s!"cutting {Double.fixed 3 s.cutting} mm, rapid {Double.fixed 3 s.rapid} mm"

end Summary
end Motion
