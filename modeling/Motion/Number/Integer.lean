/-
# Whole numbers of 32 bits

The numbers that follow a `G` or an `M`: an optional sign and one or more ASCII digits, with a value
from -2147483648 to 2147483647.  The characters are judged from the left, and the first one that is
no digit, or that takes the value out of the range, decides the fault.
-/
import Motion.Text.Blank

namespace Motion

/-- Why a text is no 32-bit whole number. -/
inductive IntegerFault where
  | empty
  | invalidDigit
  | tooLarge
  | tooSmall
  deriving Repr, DecidableEq

/-- The wording of a fault. -/
def IntegerFault.message : IntegerFault → String
  | .empty => "cannot parse integer from empty string"
  | .invalidDigit => "invalid digit found in string"
  | .tooLarge => "number too large to fit in target type"
  | .tooSmall => "number too small to fit in target type"

namespace Text

/-- The value of an ASCII digit. -/
def digit? (c : Char) : Option Nat :=
  if '0' ≤ c ∧ c ≤ '9' then some (c.toNat - 48) else none

/-- Digits read after a value, each taking it away from zero in the direction of the sign. -/
def integerFrom (negative : Bool) : Int → Text → Except IntegerFault Int
  | value, [] => .ok value
  | value, c :: t =>
    match digit? c with
    | none => .error .invalidDigit
    | some d =>
      let next := if negative then 10 * value - d else 10 * value + d
      if 2147483647 < next then .error .tooLarge
      else if next < -2147483648 then .error .tooSmall
      else integerFrom negative next t

/-- The digits after a sign: at least one. -/
def signedInteger (negative : Bool) (t : Text) : Except IntegerFault Int :=
  if t.isEmpty then .error .invalidDigit else integerFrom negative 0 t

/-- A text read as a 32-bit whole number. -/
def readInteger : Text → Except IntegerFault Int
  | [] => .error .empty
  | '+' :: t => signedInteger false t
  | '-' :: t => signedInteger true t
  | t => signedInteger false t

end Text
end Motion
