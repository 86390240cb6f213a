/-
# How a program is read

Two choices: what an axis word that a line leaves out stands for, and which character starts a
comment.
-/
import Motion.Text.Blank

namespace Motion

/-- What X, Y and Z stand for on a line that leaves them out. -/
inductive CoordinateMode where
  /-- Zero, on every line. -/
  | reset
  /-- What they stood for on the line before. -/
  | modal
  deriving Repr, DecidableEq

namespace CoordinateMode

/-- The name of a mode, in lower case. -/
def name : CoordinateMode → String
  | reset => "reset"
  | modal => "modal"

/-- The mode with exactly the given name. -/
def ofName? (t : Text) : Option CoordinateMode :=
  if t = reset.name.toList then some reset
  else if t = modal.name.toList then some modal
  else none

/-- The mode with the given name, in either case of its letters.  No letter outside ASCII has a
letter of a mode's name as its lower case. -/
def read? (t : Text) : Option CoordinateMode := ofName? (t.map Char.toLower)

/-- What is said of a text that names no mode. -/
def unknownMessage (t : Text) : String := s!"Unknown coordinate mode: {String.ofList t}"

theorem ofName?_name (m : CoordinateMode) : ofName? m.name.toList = some m := by
  cases m <;> decide

end CoordinateMode

/-- How the lines of a program are read. -/
structure Options where
  mode : CoordinateMode := .reset
  comment : Char := ';'
  deriving Repr, DecidableEq

end Motion
