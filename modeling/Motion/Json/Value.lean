/-
# JSON values

Values as a JSON text writes them.  Numbers keep their digits, because what a number is good for is
for its reader to say; members keep their order and their repetitions for the same reason.

A string is a list of marks, because an escape may write half of a surrogate pair.  Two halves that
belong together make one character (`Mark.join`); one that is left alone is part of no text
(`Mark.text?`), but the string that holds it is still well written.
-/
import Motion.Text.Escape

namespace Motion

/-- One mark of a string. -/
inductive Mark where
  | char (c : Char)
  /-- Half of a surrogate pair, written by an escape. -/
  | half (code : Nat)
  deriving Repr, DecidableEq

namespace Mark

/-- The first half of a pair. -/
def isLead (code : Nat) : Bool := decide (0xD800 ≤ code) && decide (code ≤ 0xDBFF)

/-- The second half of a pair. -/
def isTrail (code : Nat) : Bool := decide (0xDC00 ≤ code) && decide (code ≤ 0xDFFF)

/-- The mark of a code of 16 bits. -/
def ofCode (code : Nat) : Mark :=
  if isLead code || isTrail code then half code else char (Char.ofNat code)

/-- The character of a pair. -/
def pair (lead trail : Nat) : Char :=
  Char.ofNat (0x10000 + (lead - 0xD800) * 0x400 + (trail - 0xDC00))

/-- A mark before others; a first half meets its second one. -/
def join : Mark → List Mark → List Mark
  | half lead, half trail :: rest =>
    if isLead lead && isTrail trail then char (pair lead trail) :: rest
    else half lead :: half trail :: rest
  | m, rest => m :: rest

/-- The text that some marks make, if none of them is a half alone. -/
def text? : List Mark → Option Text
  | [] => some []
  | char c :: rest => (text? rest).map (c :: ·)
  | half _ :: _ => none

/-- The marks of a text. -/
def ofText (t : Text) : List Mark := t.map char

theorem text?_ofText (t : Text) : text? (ofText t) = some t := by
  induction t with
  | nil => rfl
  | cons c t ih => simp [ofText, text?] at ih ⊢; exact ih

end Mark

/-- A value that a JSON text writes. -/
inductive Json where
  | null
  | bool (b : Bool)
  /-- A number, by its digits. -/
  | number (digits : Text)
  | string (marks : List Mark)
  | array (items : List Json)
  | object (members : List (List Mark × Json))

namespace Json

/-- The string of a text. -/
def text (t : Text) : Json := string (Mark.ofText t)

/-- The number of a count. -/
def count (n : Nat) : Json := number (Nat.toDigits 10 n)

end Json
end Motion
