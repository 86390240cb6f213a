/-
# Reading JSON

A reader takes what it can from the start of a text and gives that and the rest, or nothing if the
text does not start as it should.  `Json.read?` reads a whole text: one value, and blanks around it.

The grammar is the strict one: no comments, no commas at the end, no leading zeros, nothing but the
four blanks between tokens and no control characters in strings.  Each reader that calls itself has
a number of calls left; `read?` starts with more of them than the text has characters, and every
call takes at least one character.
-/
import Motion.Json.Value
import Motion.Number.Decimal

namespace Motion.Json

/-- The blanks between tokens. -/
def isGap (c : Char) : Bool := c == ' ' || c == '\t' || c == '\n' || c == '\r'

/-- The text from its next token on. -/
def skip (t : Text) : Text := t.dropWhile isGap

/-- What the character after a backslash stands for. -/
def unescape? (c : Char) : Option Char :=
  if c == '"' || c == '\\' || c == '/' then some c else Text.control? c

/-- A string, from behind its opening quote. -/
def readMarks? : Text → Option (List Mark × Text)
  | [] => none
  | '"' :: rest => some ([], rest)
  | '\\' :: 'u' :: a :: b :: c :: d :: rest => do
    let code ← Text.readHex? [a, b, c, d]
    let (marks, rest) ← readMarks? rest
    some (Mark.join (.ofCode code) marks, rest)
  | '\\' :: e :: rest => do
    let c ← unescape? e
    let (marks, rest) ← readMarks? rest
    some (.char c :: marks, rest)
  | c :: rest =>
    if c.toNat < 0x20 then none
    else do
      let (marks, rest) ← readMarks? rest
      some (.char c :: marks, rest)

/-- One or more digits. -/
def readDigits? (t : Text) : Option (Text × Text) :=
  let digits := t.takeWhile Text.isDigit
  if digits.isEmpty then none else some (digits, t.dropWhile Text.isDigit)

/-- The digits before the point: no zero before others. -/
def readWhole? (t : Text) : Option (Text × Text) := do
  let (digits, rest) ← readDigits? t
  if digits.head? == some '0' && digits != ['0'] then none else some (digits, rest)

/-- A point and digits, or nothing. -/
def readFraction? : Text → Option (Text × Text)
  | '.' :: rest => (readDigits? rest).map fun r => ('.' :: r.1, r.2)
  | t => some ([], t)

/-- A power of ten, or nothing. -/
def readPower? : Text → Option (Text × Text)
  | [] => some ([], [])
  | e :: rest =>
    if e == 'e' || e == 'E' then
      match rest with
      | '+' :: rest => (readDigits? rest).map fun r => (e :: '+' :: r.1, r.2)
      | '-' :: rest => (readDigits? rest).map fun r => (e :: '-' :: r.1, r.2)
      | _ => (readDigits? rest).map fun r => (e :: r.1, r.2)
    else some ([], e :: rest)

/-- A number without its sign. -/
def readUnsigned? (t : Text) : Option (Text × Text) := do
  let (whole, rest) ← readWhole? t
  let (fraction, rest) ← readFraction? rest
  let (power, rest) ← readPower? rest
  some (whole ++ fraction ++ power, rest)

/-- A number. -/
def readNumber? : Text → Option (Text × Text)
  | '-' :: rest => (readUnsigned? rest).map fun r => ('-' :: r.1, r.2)
  | t => readUnsigned? t

/-- One or more items with commas between them, and the character that closes them. -/
def readItems? {β : Type} (close : Char) (item : Text → Option (β × Text)) :
    Nat → Text → Option (List β × Text)
  | 0, _ => none
  | calls + 1, t => do
    let (first, rest) ← item (skip t)
    match skip rest with
    | ',' :: rest =>
      let (others, rest) ← readItems? close item calls rest
      some (first :: others, rest)
    | c :: rest => if c == close then some ([first], rest) else none
    | [] => none

/-- No items or some, from behind what opens them. -/
def readAll? {β : Type} (close : Char) (item : Text → Option (β × Text)) (calls : Nat) (t : Text) :
    Option (List β × Text) :=
  match skip t with
  | [] => none
  | c :: rest => if c == close then some ([], rest) else readItems? close item calls (c :: rest)

/-- A member of an object. -/
def readMember? (value : Text → Option (Json × Text)) : Text → Option ((List Mark × Json) × Text)
  | '"' :: rest => do
    let (key, rest) ← readMarks? rest
    match skip rest with
    | ':' :: rest =>
      let (v, rest) ← value (skip rest)
      some ((key, v), rest)
    | _ => none
  | _ => none

/-- A value. -/
def readValue? : Nat → Text → Option (Json × Text)
  | 0, _ => none
  | calls + 1, t =>
    match t with
    | 'n' :: 'u' :: 'l' :: 'l' :: rest => some (.null, rest)
    | 't' :: 'r' :: 'u' :: 'e' :: rest => some (.bool true, rest)
    | 'f' :: 'a' :: 'l' :: 's' :: 'e' :: rest => some (.bool false, rest)
    | '"' :: rest => (readMarks? rest).map fun r => (.string r.1, r.2)
    | '[' :: rest => (readAll? ']' (readValue? calls) calls rest).map fun r => (.array r.1, r.2)
    | '\x7b' :: rest =>
      (readAll? '\x7d' (readMember? (readValue? calls)) calls rest).map fun r => (.object r.1, r.2)
    | _ => (readNumber? t).map fun r => (.number r.1, r.2)

/-- The value of a whole text. -/
def read? (t : Text) : Option Json :=
  match readValue? (t.length + 1) (skip t) with
  | some (v, rest) => if (skip rest).isEmpty then some v else none
  | none => none

end Motion.Json
