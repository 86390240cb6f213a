/-
# Traces

The position of the tool runs along the commands of a program, and every motion command leaves the
segment that it resolves to.

| code          | segment | position after it                |
|---------------|---------|----------------------------------|
| `G0`          | a move  | the target                       |
| `G1`          | a line  | the target                       |
| `G2`, `G3`    | an arc  | the target, at the height before |
| anything else | none    | as before                        |

Where the tool is may be unknown at first.  Then a line or an arc leaves no segment, but its target
is known from there on.
-/
import Motion.Toolpath.Resolution
import Motion.Toolpath.Segment

namespace Motion

/-- How a command moves the tool. -/
inductive Travel where
  | rapid
  | straight
  | circular (clockwise : Bool)
  deriving Repr, DecidableEq

/-- The travel that a code commands. -/
def Code.travel? : Code → Option Travel
  | preparatory n =>
    if n = 0 then some .rapid
    else if n = 1 then some .straight
    else if n = 2 then some (.circular true)
    else if n = 3 then some (.circular false)
    else none
  | _ => none

/-- The motion codes are those that command a motion. -/
theorem Code.isSome_travel? (c : Code) : c.travel?.isSome = c.isMotion := by
  cases c with
  | modifier => rfl
  | miscellaneous n => rfl
  | preparatory n =>
    simp only [Code.travel?, Code.isMotion]
    repeat' split
    all_goals simp
    all_goals omega

variable {α : Type} [Scalar α]

/-- What one command does at a position: the position after it and its segment. -/
def step (position : Option (Point α)) (c : Command α) :
    Option (Point α) × Option (Segment α) :=
  match c.code.travel?, position with
  | none, position => (position, none)
  | some .rapid, _ => (some c.target, some (.move c.target))
  | some .straight, some start => (some c.target, some (.line start c.target))
  | some (.circular clockwise), some start =>
    (some { c.target with z := start.z }, some (.arc (.resolve start c clockwise)))
  | some _, none => (some c.target, none)

/-- A position and the segments that led there. -/
structure Trace (α : Type) where
  position : Option (Point α)
  segments : Array (Segment α)
  deriving Repr, DecidableEq

namespace Trace

/-- Nothing has moved yet. -/
def start (position : Option (Point α)) : Trace α := ⟨position, #[]⟩

/-- One more command. -/
def feed (t : Trace α) (c : Command α) : Trace α :=
  match step t.position c with
  | (position, some segment) => ⟨position, t.segments.push segment⟩
  | (position, none) => ⟨position, t.segments⟩

/-- The trace of some commands from a position. -/
def ofCommands (position : Option (Point α)) (commands : List (Command α)) : Trace α :=
  commands.foldl feed (start position)

end Trace
end Motion
