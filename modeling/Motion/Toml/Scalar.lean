/-
# Bare values

The values that a TOML text writes without quotes or brackets: truth values, whole numbers, other
numbers, dates and times.  Such a value is a run of letters, digits and a few signs, and the whole
run has to be of one of these kinds.

Whole numbers have 64 bits; those in another base have no sign.  Underscores may stand between two
digits.  Another number must not be too large for a double unless it is negative.
-/
import Motion.Toml.Value
import Motion.Text.Escape
import Motion.Number.Double

namespace Motion.Toml

/-- Digits of a base, with underscores allowed between two of them; without the underscores. -/
def digits? (isDigit : Char → Bool) : Text → Option Text
  | [] => none
  | [c] => if isDigit c then some [c] else none
  | c :: '_' :: rest => if isDigit c then (digits? isDigit rest).map (c :: ·) else none
  | c :: rest => if isDigit c then (digits? isDigit rest).map (c :: ·) else none

/-- A text without its sign, and whether that was a minus. -/
def signed : Text → Bool × Text
  | '-' :: rest => (true, rest)
  | '+' :: rest => (false, rest)
  | t => (false, t)

/-- Decimal digits without a needless zero before them. -/
def decimalDigits? (t : Text) : Option Text :=
  if t.head? == some '0' && t.length != 1 then none else digits? Text.isDigit t

/-- The digit of a base. -/
def isDigitOf (base : Nat) (c : Char) : Bool :=
  match Text.hexValue? c with
  | some d => decide (d < base)
  | none => false

/-- The number that digits of a base write. -/
def valueIn (base : Nat) (digits : Text) : Nat :=
  digits.foldl (fun n c => base * n + (Text.hexValue? c).getD 0) 0

/-- A whole number of 64 bits. -/
def fitting? (n : Int) : Option Value :=
  if -0x8000000000000000 ≤ n ∧ n < 0x8000000000000000 then some (.whole n) else none

/-- A whole number after the letter of its base. -/
def wholeIn? (base : Nat) (t : Text) : Option Value :=
  (digits? (isDigitOf base) t).bind fun digits => fitting? (valueIn base digits)

/-- A whole number. -/
def whole? : Text → Option Value
  | '0' :: 'x' :: rest => wholeIn? 16 rest
  | '0' :: 'o' :: rest => wholeIn? 8 rest
  | '0' :: 'b' :: rest => wholeIn? 2 rest
  | t =>
    let (negative, rest) := signed t
    (decimalDigits? rest).bind fun digits =>
      let n : Int := valueIn 10 digits
      fitting? (if negative then -n else n)

/-- The power of ten behind the letter `e`. -/
def power? (t : Text) : Option Int :=
  let (negative, rest) := signed t
  (digits? Text.isDigit rest).map fun digits =>
    let n : Int := valueIn 10 digits
    if negative then -n else n

/-- A character that starts a power of ten. -/
def startsPower (c : Char) : Bool := c == 'e' || c == 'E'

/-- A number with a point, a power of ten or both, if it is not too large. -/
def real? (t : Text) : Option Value :=
  let (negative, rest) := signed t
  if rest == "inf".toList || rest == "nan".toList then some .real
  else
    let mantissa := rest.takeWhile (fun c => !startsPower c)
    let power := rest.dropWhile (fun c => !startsPower c)
    let whole := mantissa.takeWhile (· != '.')
    let fraction := mantissa.dropWhile (· != '.')
    if power.isEmpty && fraction.isEmpty then none
    else do
      let whole ← decimalDigits? whole
      let fraction ← if fraction.isEmpty then some [] else digits? Text.isDigit (fraction.drop 1)
      let e ← if power.isEmpty then some 0 else power? (power.drop 1)
      let size := Double.ofMagnitude (valueIn 10 (whole ++ fraction)) (e - fraction.length)
      if size.isInf && !negative then none else some .real

/-- Exactly `width` decimal digits, as a number. -/
def fixedDigits? (width : Nat) (t : Text) : Option Nat :=
  if t.length == width && t.all Text.isDigit then some (valueIn 10 t) else none

/-- The number of days of a month. -/
def daysIn (year month : Nat) : Nat :=
  if month == 2 then
    if (year % 4 == 0 && year % 100 != 0) || year % 400 == 0 then 29 else 28
  else if month == 4 || month == 6 || month == 9 || month == 11 then 30
  else 31

/-- A date such as `1979-05-27`. -/
def isDate (t : Text) : Bool :=
  match t.splitOn '-' with
  | [year, month, day] =>
    match fixedDigits? 4 year, fixedDigits? 2 month, fixedDigits? 2 day with
    | some year, some month, some day =>
      decide (1 ≤ month) && decide (month ≤ 12) && decide (1 ≤ day) &&
        decide (day ≤ daysIn year month)
    | _, _, _ => false
  | _ => false

/-- Hours and minutes such as `07:32`. -/
def isHourMinute (t : Text) : Bool :=
  match t.splitOn ':' with
  | [hour, minute] =>
    match fixedDigits? 2 hour, fixedDigits? 2 minute with
    | some hour, some minute => decide (hour ≤ 23) && decide (minute ≤ 59)
    | _, _ => false
  | _ => false

/-- Seconds, and parts of a second if a point follows, such as `00.5`; 60 in a leap second. -/
def isSecond (t : Text) : Bool :=
  let whole := t.takeWhile (· != '.')
  let part := t.dropWhile (· != '.')
  match fixedDigits? 2 whole with
  | some second =>
    decide (second ≤ 60) &&
      (part.isEmpty || (!(part.drop 1).isEmpty && (part.drop 1).all Text.isDigit))
  | none => false

/-- A time of the day such as `07:32:00.5`. -/
def isTime (t : Text) : Bool :=
  isHourMinute (t.take 5) && (t.drop 5).head? == some ':' && isSecond (t.drop 6)

/-- A distance from universal time such as `Z` or `-07:00`. -/
def isOffset : Text → Bool
  | ['Z'] => true
  | ['z'] => true
  | '+' :: rest => isHourMinute rest
  | '-' :: rest => isHourMinute rest
  | _ => false

/-- A character that starts a distance from universal time. -/
def startsOffset (c : Char) : Bool := c == 'Z' || c == 'z' || c == '+' || c == '-'

/-- A time of the day, with a distance from universal time behind it or not. -/
def isClock (t : Text) : Bool :=
  let time := t.takeWhile (fun c => !startsOffset c)
  let offset := t.dropWhile (fun c => !startsOffset c)
  isTime time && (offset.isEmpty || isOffset offset)

/-- A date, a time, or a date and a time with `T` or a space between them. -/
def isMoment (t : Text) : Bool :=
  isTime t || isDate t ||
    (isDate (t.take 10) &&
      ((t.drop 10).head? == some 'T' || (t.drop 10).head? == some 't' ||
        (t.drop 10).head? == some ' ') &&
      isClock (t.drop 11))

/-- The characters of bare values. -/
def isBare (c : Char) : Bool :=
  c.isAlphanum || c == '_' || c == '+' || c == '-' || c == '.' || c == ':'

/-- The run of characters that a bare value takes, and the rest.  A date and a time may have one
space between them. -/
def bareRun (t : Text) : Text × Text :=
  let run := t.takeWhile isBare
  let rest := t.dropWhile isBare
  match rest with
  | ' ' :: c :: more =>
    if isDate run && Text.isDigit c then
      (run ++ ' ' :: (c :: more).takeWhile isBare, (c :: more).dropWhile isBare)
    else (run, rest)
  | _ => (run, rest)

/-- The value of a run. -/
def bareValue? (run : Text) : Option Value :=
  if run == "true".toList then some (.bool true)
  else if run == "false".toList then some (.bool false)
  else if isMoment run then some .moment
  else (whole? run).orElse fun _ => real? run

end Motion.Toml
