/-
# Commands

A line of a motion program says one thing: a preparatory code (`G`), a miscellaneous code (`M`), or
neither, in which case it only modifies.  Beside it stand a target, the offset of an arc's centre
and a feed rate, each zero where the line gives none; the feed rate is kept and not interpreted.
-/
import Motion.Geometry.Point

namespace Motion

/-- What a line is about. -/
inductive Code where
  /-- No code: the line only modifies. -/
  | modifier
  | preparatory (number : Int)
  | miscellaneous (number : Int)
  deriving Repr, DecidableEq

namespace Code

/-- The letter of a code, or a dash. -/
def letter : Code → String
  | modifier => "-"
  | preparatory _ => "G"
  | miscellaneous _ => "M"

/-- The number of a code; 0 if there is none. -/
def number : Code → Int
  | modifier => 0
  | preparatory n => n
  | miscellaneous n => n

/-- A code as it is written, such as `G1`; a dash if there is none. -/
def label : Code → String
  | modifier => "-"
  | c => s!"{c.letter}{c.number}"

/-- The codes that move the tool: `G0` to `G3`. -/
def isMotion : Code → Bool
  | preparatory n => decide (0 ≤ n) && decide (n ≤ 3)
  | _ => false

end Code

/-- One line of a program, read. -/
structure Command (α : Type) where
  code : Code
  /-- X, Y and Z. -/
  target : Point α
  /-- I and J: the centre of an arc, seen from its start. -/
  offset : PlanePoint α
  feed : α
  /-- The number of the line, from 1. -/
  line : UInt32
  /-- The line without its comment and the blanks around it. -/
  source : Text
  deriving Repr, DecidableEq

namespace Command

variable {α : Type}

/-- The command moves the tool. -/
def isMotion (c : Command α) : Bool := c.code.isMotion

/-- The command as a listing shows it. -/
def display (c : Command α) : String :=
  s!"[{c.line.toNat}] {c.code.label}: {String.ofList c.source}"

end Command
end Motion
