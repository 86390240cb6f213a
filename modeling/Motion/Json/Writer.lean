/-
# Writing JSON

A value over several lines: each item of an array and each member of an object stands on a line of
its own, two blanks further in than what holds it.  Empty arrays and objects are written on one
line.  In strings, quotes, backslashes and control characters are escaped and nothing else.
-/
import Motion.Json.Value

namespace Motion.Json

/-- A code by its four digits. -/
def writeCode (code : Nat) : Text := '\\' :: 'u' :: Text.hexPadded 4 code

/-- A character of a string. -/
def writeChar (c : Char) : Text :=
  match Text.controlLetter? c with
  | some letter => ['\\', letter]
  | none =>
    if c == '"' || c == '\\' then ['\\', c]
    else if c.toNat < 0x20 then writeCode c.toNat
    else [c]

/-- A mark of a string. -/
def writeMark : Mark → Text
  | .char c => writeChar c
  | .half code => writeCode code

/-- A string. -/
def writeString (marks : List Mark) : Text := '"' :: marks.flatMap writeMark ++ ['"']

/-- The start of a line at a depth. -/
def newLine (depth : Nat) : Text := '\n' :: List.replicate (2 * depth) ' '

mutual

/-- A value at a depth. -/
def writeAt (depth : Nat) : Json → Text
  | .null => "null".toList
  | .bool b => (if b then "true" else "false").toList
  | .number digits => digits
  | .string marks => writeString marks
  | .array [] => ['[', ']']
  | .array (v :: rest) =>
    '[' :: newLine (depth + 1) ++ writeAt (depth + 1) v ++ writeItems (depth + 1) rest ++
      newLine depth ++ [']']
  | .object [] => ['\x7b', '\x7d']
  | .object ((key, v) :: rest) =>
    '\x7b' :: newLine (depth + 1) ++ writeString key ++ [':', ' '] ++ writeAt (depth + 1) v ++
      writeMembers (depth + 1) rest ++ newLine depth ++ ['\x7d']

/-- The items after the first one. -/
def writeItems (depth : Nat) : List Json → Text
  | [] => []
  | v :: rest => ',' :: newLine depth ++ writeAt depth v ++ writeItems depth rest

/-- The members after the first one. -/
def writeMembers (depth : Nat) : List (List Mark × Json) → Text
  | [] => []
  | (key, v) :: rest =>
    ',' :: newLine depth ++ writeString key ++ [':', ' '] ++ writeAt depth v ++
      writeMembers depth rest

end

/-- A value as a whole text. -/
def write (v : Json) : Text := writeAt 0 v

end Motion.Json
