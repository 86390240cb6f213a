/-
# Diagnostics

Reading a program stops for nothing that a line says.  A word that cannot be read becomes a
warning and the line goes on without it; a file that cannot be read becomes an error and leaves no
program.  The two are the two constructors, so that an error without a file, or a warning without a
word, cannot be written down.
-/
import Motion.Text.Blank

namespace Motion

/-- How bad it is. -/
inductive Severity where
  | warning
  | error
  deriving Repr, DecidableEq

/-- The name of a severity. -/
def Severity.name : Severity → String
  | warning => "warning"
  | error => "error"

/-- What reading a program has to report. -/
inductive Diagnostic where
  /-- A word of the line `text` cannot be read. -/
  | badWord (line : UInt32) (text word : Text) (reason : String)
  /-- The file cannot be read. -/
  | badFile (path : Text) (reason : String)
  deriving Repr, DecidableEq

namespace Diagnostic

/-- A bad word is a warning, a bad file an error. -/
def severity : Diagnostic → Severity
  | badWord .. => .warning
  | badFile .. => .error

/-- The number of the line; 0 for a file. -/
def line : Diagnostic → UInt32
  | badWord line .. => line
  | badFile .. => 0

/-- The text of the line; empty for a file. -/
def text : Diagnostic → Text
  | badWord _ text .. => text
  | badFile .. => []

/-- The word, if it is about one. -/
def word? : Diagnostic → Option Text
  | badWord _ _ word _ => some word
  | badFile .. => none

/-- It is about a file. -/
def isFileError : Diagnostic → Bool
  | badWord .. => false
  | badFile .. => true

/-- What is wrong. -/
def message : Diagnostic → String
  | badWord line _ word reason =>
    s!"Invalid parameter '{String.ofList word}' at line {line.toNat}: {reason}"
  | badFile path reason => s!"File error for {String.ofList path}: {reason}"

/-- What is wrong, how bad it is, and on which line. -/
def display (d : Diagnostic) : String :=
  let place := if d.text.isEmpty then "" else s!" in line: {String.ofList d.text}"
  s!"{d.severity.name}: {d.message}{place}"

/-- Some file could not be read. -/
def hasFileError (ds : List Diagnostic) : Bool := ds.any isFileError

/-- The number of warnings. -/
def warningCount (ds : List Diagnostic) : Nat :=
  (ds.filter (fun d => decide (d.severity = .warning))).length

end Diagnostic
end Motion
