/-
# Decimal numbers

The numbers that follow a coordinate letter: an optional sign and digits, with or without a point
among them and a power of ten behind them.  `readDecimal` reads the exact value and rounds nothing:
a sign, a whole number of digits and a power of ten.  The names of the infinities and of the value
that is no number belong to the syntax too, in either case of their letters; what becomes of them
is for the arithmetic to say (`Scalar.read`).
-/
import Motion.Number.Integer

namespace Motion

/-- The exact value that a decimal text writes. -/
inductive Decimal where
  /-- `digits` times ten to the `exponent`, with its sign. -/
  | finite (negative : Bool) (digits : Nat) (exponent : Int)
  | infinite (negative : Bool)
  | notANumber
  deriving Repr, DecidableEq

/-- Why a text is no decimal number. -/
inductive DecimalFault where
  | empty
  | malformed
  deriving Repr, DecidableEq

namespace Text

/-- An ASCII digit. -/
def isDigit (c : Char) : Bool := (digit? c).isSome

/-- The whole number that a run of digits writes. -/
def naturalOf (t : Text) : Nat := t.foldl (fun n c => 10 * n + (digit? c).getD 0) 0

/-- A text of one or more digits, read as a whole number. -/
def readNatural? (t : Text) : Option Nat :=
  if t.isEmpty || !t.all isDigit then none else some (naturalOf t)

/-- A power of ten: nothing, or the letter `e` in either case and a signed whole number. -/
def readExponent? : Text → Option Int
  | [] => some 0
  | e :: t =>
    if e == 'e' || e == 'E' then
      match t with
      | '+' :: t => (readNatural? t).map Int.ofNat
      | '-' :: t => (readNatural? t).map (fun n => -Int.ofNat n)
      | t => (readNatural? t).map Int.ofNat
    else none

/-- The part after a point: its digits and what follows them.  Without a point there are none. -/
def fraction : Text → Text × Text
  | '.' :: t => (t.takeWhile isDigit, t.dropWhile isDigit)
  | t => ([], t)

/-- A number without its sign. -/
def readUnsigned? (negative : Bool) (t : Text) : Option Decimal :=
  let name := t.map Char.toLower
  if name == "inf".toList || name == "infinity".toList then some (.infinite negative)
  else if name == "nan".toList then some .notANumber
  else
    let whole := t.takeWhile isDigit
    let part := fraction (t.dropWhile isDigit)
    if whole.isEmpty && part.1.isEmpty then none
    else
      (readExponent? part.2).map fun e =>
        .finite negative (naturalOf (whole ++ part.1)) (e - part.1.length)

/-- A text read as a decimal number. -/
def readDecimal (t : Text) : Except DecimalFault Decimal :=
  let value :=
    match t with
    | '+' :: t => readUnsigned? false t
    | '-' :: t => readUnsigned? true t
    | t => readUnsigned? false t
  match value with
  | some value => .ok value
  | none => .error (if t.isEmpty then .empty else .malformed)

end Text
end Motion
