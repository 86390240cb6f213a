/-
# Escapes

What the written forms of strings share: letters that name control characters, and code points in
base sixteen, with the digits they need or with a fixed number of them, in either case.
-/
import Motion.Text.Blank

namespace Motion.Text

/-- The control characters that a letter names behind a backslash. -/
def controls : List (Char × Char) :=
  [('b', '\x08'), ('f', '\x0c'), ('n', '\n'), ('r', '\r'), ('t', '\t')]

/-- The control character that a letter names. -/
def control? (letter : Char) : Option Char := controls.lookup letter

/-- The letter that names a control character. -/
def controlLetter? (c : Char) : Option Char :=
  (controls.find? (fun entry => entry.2 == c)).map Prod.fst

/-- The digits of a number in base sixteen, in lower case. -/
def hexDigits (n : Nat) : Text := Nat.toDigits 16 n

/-- The same with zeros on the left, so that there are at least `width` digits. -/
def hexPadded (width n : Nat) : Text :=
  let digits := hexDigits n
  List.replicate (width - digits.length) '0' ++ digits

/-- The value of a digit in base sixteen, in either case. -/
def hexValue? (c : Char) : Option Nat :=
  if '0' ≤ c ∧ c ≤ '9' then some (c.toNat - 48)
  else if 'a' ≤ c ∧ c ≤ 'f' then some (c.toNat - 87)
  else if 'A' ≤ c ∧ c ≤ 'F' then some (c.toNat - 55)
  else none

/-- The number that some digits in base sixteen write. -/
def readHex? (digits : Text) : Option Nat :=
  digits.foldlM (fun n c => (hexValue? c).map (16 * n + ·)) 0

end Motion.Text
