/-
# Programs

A program is the commands of its lines, in order, and what reading them had to report.  It is built
line by line (`Loader.feed`): a line of which nothing is left after its comment counts, but leaves
no command.  Text in memory and the lines of a file go through the same step, so a file loads as
its text does.

Line numbers are words of 32 bits and start over after the greatest one.
-/
import Motion.Program.Line
import Motion.Text.Lines

namespace Motion

/-- The commands of a program and its diagnostics. -/
structure Program (α : Type) where
  commands : List (Command α)
  diagnostics : List Diagnostic
  deriving Repr, DecidableEq

/-- A program under construction: what it hands to its next line, and what it has so far. -/
structure Loader (α : Type) where
  carried : Point α
  commands : Array (Command α)
  diagnostics : Array Diagnostic
  deriving Repr, DecidableEq

variable {α : Type} [Scalar α]

namespace Loader

/-- Before the first line, the target is the origin. -/
def start : Loader α := ⟨.origin, #[], #[]⟩

/-- One more raw line with its number. -/
def feed (o : Options) (s : Loader α) (line : UInt32) (raw : Text) : Loader α :=
  match codePart? o.comment raw with
  | none => s
  | some text =>
    let command := readLine o.mode s.carried line text
    ⟨command.target, s.commands.push command, s.diagnostics ++ lineWarnings α line text⟩

/-- More raw lines, numbered on from the given number. -/
def feedAll (o : Options) : Loader α → UInt32 → List Text → Loader α
  | s, _, [] => s
  | s, line, raw :: rest => feedAll o (feed o s line raw) (line + 1) rest

/-- The program that has been built. -/
def program (s : Loader α) : Program α := ⟨s.commands.toList, s.diagnostics.toList⟩

end Loader

/-- The program of a text. -/
def Program.ofText (o : Options) (t : Text) : Program α :=
  (Loader.start.feedAll o 1 t.lines).program

/-- Some file of the program could not be read. -/
def Program.hasFileError (p : Program α) : Bool := Diagnostic.hasFileError p.diagnostics

end Motion
