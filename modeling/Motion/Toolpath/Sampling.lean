/-
# Sampling

Segments as vertices, for drawing.  An arc is divided into equal steps; the vertex at step `k` of
`n` is computed from the quotient of `k` and `n` and not from the vertex before it, so finer
divisions contain the coarser ones.

`Segment.stepsWithin` chooses the number of steps such that no chord is further from the arc than a
tolerance: a chord over the angle `2 φ` is `radius * (1 - cos φ)` away from it.
-/
import Motion.Toolpath.Segment

namespace Motion

variable {α : Type} [Scalar α]

/-- The vertex of an arc after `k` of `n` equal steps. -/
def Arc.vertex (a : Arc α) (n k : Nat) : Point α :=
  a.pointAt (a.startAngle + a.sweep * (Scalar.ofNat k / Scalar.ofNat n))

/-- The vertices of an arc in `n` equal steps, and in one if there is none. -/
def Arc.vertices (a : Arc α) (n : Nat) : List (Point α) :=
  let n := max n 1
  (List.range (n + 1)).map (a.vertex n)

namespace Segment

/-- The vertices of a segment, with the given number of steps for an arc. -/
def vertices (n : Nat) : Segment α → List (Point α)
  | move stop => [stop]
  | line start stop => [start, stop]
  | arc a => a.vertices n

/-- The radius or sweep up to which an arc is as good as a point. -/
def negligible : α := Scalar.ofDecimal false 1 (-9)

/-- The number of steps that keep the chords of a segment within a tolerance, from 1 to `limit`, or
1 if that is 0.  A tolerance that is not positive asks for as many steps as there may be. -/
def stepsWithin (tolerance : α) (limit : Nat) : Segment α → Nat
  | arc a =>
    let limit := max limit 1
    let sweep := Scalar.abs a.sweep
    if Scalar.le a.radius negligible || Scalar.le sweep negligible then 1
    else if Scalar.le tolerance Scalar.zero then limit
    else if Scalar.le a.radius tolerance then 1
    else
      let angle := Scalar.two * Scalar.acos (Scalar.one - tolerance / a.radius)
      max 1 (min (Scalar.ceilCount (sweep / angle)) limit)
  | _ => 1

end Segment
end Motion
