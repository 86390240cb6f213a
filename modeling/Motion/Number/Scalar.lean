/-
# The arithmetic of coordinates

Everything that the library computes with coordinates it computes over a type with these
operations.  Programs run in double precision (`Motion.Number.Double`); the laws of the geometry
are laws of any arithmetic that satisfies their hypotheses, the real numbers among them, so the
class holds operations and no laws.

Comparisons are `Bool`s, and `eq` and `le` may both fail on a value that is not a number.  A value
is `isNaN` when it does not equal itself.
-/
import Motion.Number.Decimal

namespace Motion

/-- The operations that geometry needs. -/
class Scalar (α : Type) extends Add α, Sub α, Mul α, Div α, Neg α where
  /-- The value of a whole number. -/
  ofNat : Nat → α
  /-- The value nearest to a signed decimal: sign, digits and power of ten. -/
  ofDecimal : Bool → Nat → Int → α
  lt : α → α → Bool
  le : α → α → Bool
  eq : α → α → Bool
  isFinite : α → Bool
  abs : α → α
  sqrt : α → α
  /-- The length of the hypotenuse over two legs. -/
  hypot : α → α → α
  sin : α → α
  cos : α → α
  acos : α → α
  /-- The angle of the direction with the given y and x. -/
  atan2 : α → α → α
  /-- A full turn, in radians. -/
  turn : α
  /-- The greatest finite value. -/
  largest : α
  /-- The whole part of a value, brought into the range from 0 to 2^32 - 1. -/
  truncate : α → Nat

namespace Scalar

variable {α : Type} [Scalar α]

/-- The value 0. -/
def zero : α := ofNat 0

/-- The value 1. -/
def one : α := ofNat 1

/-- The value 2. -/
def two : α := ofNat 2

/-- The value is not a number: it differs from itself. -/
def isNaN (a : α) : Bool := !eq a a

/-- The lesser of two values, the first if neither is less; a value that is not a number gives way
to the other. -/
def least (a b : α) : α := if isNaN a then b else if lt b a then b else a

/-- The greater of two values, the first if neither is greater; a value that is not a number gives
way to the other. -/
def greatest (a b : α) : α := if isNaN a then b else if lt a b then b else a

/-- The greatest count that `ceilCount` gives. -/
def countLimit : Nat := UInt32.size - 1

/-- The least whole number that a value does not exceed, brought into the range from 0 to
`countLimit`; 0 for a value that is not a number. -/
def ceilCount (a : α) : Nat :=
  let n := truncate a
  if lt (ofNat n) a && decide (n < countLimit) then n + 1 else n

end Scalar

/-- Why a text is no coordinate. -/
inductive RealFault where
  | empty
  | malformed
  | notFinite
  deriving Repr, DecidableEq

/-- The wording of a fault. -/
def RealFault.message : RealFault → String
  | .empty => "cannot parse float from empty string"
  | .malformed => "invalid float literal"
  | .notFinite => "value is not finite"

/-- A text read as a coordinate: a decimal number whose value is finite. -/
def Scalar.read {α : Type} [Scalar α] (t : Text) : Except RealFault α :=
  match t.readDecimal with
  | .error .empty => .error .empty
  | .error .malformed => .error .malformed
  | .ok (.finite negative digits exponent) =>
    let value : α := Scalar.ofDecimal negative digits exponent
    if Scalar.isFinite value then .ok value else .error .notFinite
  | .ok (.infinite _) => .error .notFinite
  | .ok .notANumber => .error .notFinite

end Motion
