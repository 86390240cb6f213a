/-
# Double precision

The arithmetic that programs run in: `Float`, whose sums, differences, products, quotients and
square roots are the correctly rounded ones.

* `Double.ofDecimal` gives the double nearest to a decimal, ties to the even one.  Decimals far out
  of the range of doubles are decided by their order of magnitude alone, because a power of ten as
  long as its exponent says would not fit anywhere.
* `Double.hypot` neither overflows nor underflows where the result does not: both legs are scaled
  by a power of two, which changes no digit, and the root of the sum of squares gets one correction
  from the rounding errors of the squares.
-/
import Motion.Number.Scalar

namespace Motion.Double

/-- The number of digits of a whole number in base ten. -/
def decimalLength (n : Nat) : Nat := (Nat.toDigits 10 n).length

/-- The double nearest to `digits` times ten to the `exponent`.  From 10^310 on it is infinite, and
below 10^-330 it is zero. -/
def ofMagnitude (digits : Nat) (exponent : Int) : Float :=
  if digits == 0 then 0.0
  else
    let places := exponent + decimalLength digits
    if 310 < places then Float.ofBits 0x7FF0000000000000
    else if places < -330 then 0.0
    else if exponent < 0 then Float.ofScientific digits true (-exponent).toNat
    else Float.ofScientific digits false exponent.toNat

/-- The double nearest to a signed decimal. -/
def ofDecimal (negative : Bool) (digits : Nat) (exponent : Int) : Float :=
  let value := ofMagnitude digits exponent
  if negative then -value else value

/-- The hypotenuse over two legs whose squares neither overflow nor vanish, the longer one first. -/
def hypotInRange (a b : Float) : Float :=
  let h := Float.sqrt (a * a + b * b)
  let excess :=
    if h ≤ 2.0 * b then
      let d := h - b
      a * (2.0 * d - a) + (d - 2.0 * (a - b)) * d
    else
      let d := h - a
      2.0 * d * (a - 2.0 * b) + ((4.0 * d - b) * b + d * d)
  h - excess / (2.0 * h)

/-- The hypotenuse over two legs that are not negative, the longer one first.  A leg that is less
than a unit in the last place of the other adds nothing but rounding. -/
def hypotOrdered (a b : Float) : Float :=
  let down := Float.ofBits 0x1A70000000000000  -- 2^-600
  let up := Float.ofBits 0x6570000000000000    -- 2^600
  let unit := Float.ofBits 0x3C90000000000000  -- 2^-54
  if b ≤ a * unit then a + b
  else if Float.ofBits 0x5FE0000000000000 < a then  -- 2^511
    hypotInRange (a * down) (b * down) * up
  else if b < Float.ofBits 0x2340000000000000 then  -- 2^-459
    hypotInRange (a * up) (b * up) * down
  else hypotInRange a b

/-- The hypotenuse over any two legs: infinite if one of them is, even if the other is not a
number. -/
def hypot (x y : Float) : Float :=
  let a := x.abs
  let b := y.abs
  if a.isInf || b.isInf then Float.ofBits 0x7FF0000000000000
  else if a.isNaN || b.isNaN then a + b
  else if a < b then hypotOrdered b a
  else hypotOrdered a b

end Motion.Double

namespace Motion

instance : Scalar Float where
  ofNat := Float.ofNat
  ofDecimal := Double.ofDecimal
  lt a b := decide (a < b)
  le a b := decide (a ≤ b)
  eq a b := a == b
  isFinite := Float.isFinite
  abs := Float.abs
  sqrt := Float.sqrt
  hypot := Double.hypot
  sin := Float.sin
  cos := Float.cos
  acos := Float.acos
  atan2 := Float.atan2
  turn := Float.ofBits 0x401921FB54442D18
  largest := Float.ofBits 0x7FEFFFFFFFFFFFFF
  truncate a := a.toUInt32.toNat

end Motion
