/-
# A character, quoted

How a message shows one character: between apostrophes, as itself if that can be read, and
otherwise by an escape.  Only letters, numbers, blanks and a few marks are ever shown this way, so
the characters that cannot stand for themselves are the blanks other than the space, the letters and
numbers that combine with what precedes them, and the letters that show nothing.
-/
import Motion.Text.Alphanumeric
import Motion.Text.Escape

namespace Motion.Text

/-- The escape of a character that cannot stand for itself, if it is one. -/
def escape? (c : Char) : Option String :=
  if c == '\t' then some "\\t"
  else if c == '\r' then some "\\r"
  else if c == '\n' then some "\\n"
  else if (isBlank c && c != ' ') || isCombining c || isFiller c then
    some ("\\u\x7b" ++ String.ofList (hexDigits c.toNat) ++ "\x7d")
  else none

/-- A character between apostrophes. -/
def quoted (c : Char) : String :=
  "'" ++ (escape? c).getD (String.ofList [c]) ++ "'"

end Motion.Text
