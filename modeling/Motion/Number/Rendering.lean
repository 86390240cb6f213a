/-
# Doubles as decimal text

A finite double is a whole number times a power of two, so its decimal rendering to any number of
places is a matter of exact arithmetic on whole numbers: `roundDiv` divides, gives the nearest whole
number and takes the even one of two that are equally near.

* `fixed` writes a given number of places behind the point and all digits before it; a negative
  zero keeps its sign.
* `scientific` writes one digit before the point, a given number behind it, and the power of ten.
-/
import Motion.Number.Double

namespace Motion.Double

/-- What the 64 bits of a double say: a finite one is `mantissa` times two to the `exponent`. -/
inductive Parts where
  | finite (negative : Bool) (mantissa : Nat) (exponent : Int)
  | infinite (negative : Bool)
  | notANumber
  deriving Repr, DecidableEq

/-- The parts of a bit pattern: one sign bit, eleven bits of exponent, and the mantissa. -/
def Parts.ofBits (bits : Nat) : Parts :=
  let negative := decide (Nat.pow 2 63 ≤ bits)
  let exponent : Nat := bits / Nat.pow 2 52 % Nat.pow 2 11
  let mantissa : Nat := bits % Nat.pow 2 52
  if exponent == 2047 then if mantissa == 0 then .infinite negative else .notANumber
  else if exponent == 0 then .finite negative mantissa (-1074)
  else .finite negative (Nat.pow 2 52 + mantissa) ((exponent : Int) - 1075)

/-- The parts of a double. -/
def parts (x : Float) : Parts := Parts.ofBits x.toBits.toNat

/-- The whole number nearest to a quotient, the even one of two that are equally near. -/
def roundDiv (num den : Nat) : Nat :=
  let q := num / den
  let r := num % den
  if 2 * r < den then q
  else if den < 2 * r then q + 1
  else q + q % 2

/-- A value not below zero as a quotient: `mantissa` times two to the `exponent`. -/
def quotient (mantissa : Nat) (exponent : Int) : Nat × Nat :=
  (mantissa * Nat.pow 2 exponent.toNat, Nat.pow 2 (-exponent).toNat)

/-- The decimal digits of a whole number, filled up with zeros on the left. -/
def padded (width n : Nat) : Text :=
  let digits := Nat.toDigits 10 n
  List.replicate (width - digits.length) '0' ++ digits

/-- A minus sign, if there is one to write. -/
def signText (negative : Bool) : String := if negative then "-" else ""

/-- A value that is no finite number, as text. -/
def oddText : Parts → String
  | .infinite negative => signText negative ++ "inf"
  | _ => "NaN"

/-- A double with `places` digits behind the point. -/
def fixed (places : Nat) (x : Float) : String :=
  match parts x with
  | .finite negative mantissa exponent =>
    let q := quotient mantissa exponent
    let digits := padded (places + 1) (roundDiv (q.1 * Nat.pow 10 places) q.2)
    let split := digits.length - places
    let tail := if places == 0 then [] else '.' :: digits.drop split
    signText negative ++ String.ofList (digits.take split ++ tail)
  | other => oddText other

/-- The power of ten of the first digit of a quotient that is not zero. -/
def leadingPower (num den : Nat) : Int :=
  let guess := (decimalLength num : Int) - decimalLength den
  if num * Nat.pow 10 (-guess).toNat < den * Nat.pow 10 guess.toNat then guess - 1 else guess

/-- A double with one digit before the point and `places` behind it, and its power of ten. -/
def scientific (places : Nat) (x : Float) : String :=
  match parts x with
  | .finite negative mantissa exponent =>
    let q := quotient mantissa exponent
    let power := if mantissa == 0 then 0 else leadingPower q.1 q.2
    let shift := (places : Int) - power
    let rounded := roundDiv (q.1 * Nat.pow 10 shift.toNat) (q.2 * Nat.pow 10 (-shift).toNat)
    -- rounding up to the next power of ten leaves one digit too many
    let carried := rounded == Nat.pow 10 (places + 1)
    let digits := padded (places + 1) (if carried then Nat.pow 10 places else rounded)
    let power := if carried then power + 1 else power
    let tail := if places == 0 then [] else '.' :: digits.drop 1
    signText negative ++ String.ofList (digits.take 1 ++ tail) ++ "e" ++ signText (power < 0) ++
      String.ofList (Nat.toDigits 10 power.natAbs)
  | other => oddText other

end Motion.Double
