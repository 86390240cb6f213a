/-
# Lines of a program

From a raw line to a command.  `codePart?` drops the comment and the blanks around the rest and says
whether anything is left.  `readLine` reads what is left: the words that set something are applied
from left to right, so the last one of a kind wins; each word that cannot be read gives a warning
and changes nothing.  Every line gives a command, if only an empty one.

The only thing that one line hands to the next is the target, and only in modal mode does it matter.
-/
import Motion.Program.Word
import Motion.Program.Diagnostic
import Motion.Program.Mode

namespace Motion

/-- The part of a raw line before its comment, without blanks at its ends, if anything is left. -/
def codePart? (comment : Char) (raw : Text) : Option Text :=
  let code := Text.trim (raw.takeWhile (· != comment))
  if code.isEmpty then none else some code

variable {α : Type} [Scalar α]

/-- The command of a line before any of its words is read. -/
def Command.blank (mode : CoordinateMode) (carried : Point α) (line : UInt32) (source : Text) :
    Command α where
  code := .modifier
  target := match mode with
    | .reset => .origin
    | .modal => carried
  offset := ⟨Scalar.zero, Scalar.zero⟩
  feed := Scalar.zero
  line := line
  source := source

/-- What the words of a line set, from left to right. -/
def entries (text : Text) : List (Entry α) :=
  text.words.filterMap fun w =>
    match readWord w with
    | some (.ok entry) => some entry
    | _ => none

/-- The warning that a word of a line gives, if it gives one. -/
def wordWarning? (α : Type) [Scalar α] (line : UInt32) (text word : Text) : Option Diagnostic :=
  match readWord (α := α) word with
  | some (.error fault) => some (.badWord line text word fault.message)
  | _ => none

/-- The command of a line, given the target of the line before it. -/
def readLine (mode : CoordinateMode) (carried : Point α) (line : UInt32) (text : Text) :
    Command α :=
  (entries text).foldl Command.set (.blank mode carried line text)

/-- The warnings of a line, from left to right. -/
def lineWarnings (α : Type) [Scalar α] (line : UInt32) (text : Text) : List Diagnostic :=
  text.words.filterMap (wordWarning? α line text)

end Motion
