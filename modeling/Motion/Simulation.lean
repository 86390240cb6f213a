/-
# Simulations

A program, loaded and traced from the machine origin: its tool path, what loading it had to report,
and how many commands it has.  The commands themselves are not kept.
-/
import Motion.Program.Source
import Motion.Toolpath.Trace
import Motion.Toolpath

namespace Motion

/-- A traced program. -/
structure Simulation (α : Type) where
  toolpath : Toolpath α
  diagnostics : List Diagnostic
  commandCount : Nat

namespace Simulation

variable {α : Type} [Scalar α]

/-- A program, traced from a position. -/
def ofProgram (position : Option (Point α)) (p : Program α) : Simulation α where
  toolpath := .ofSegments (Trace.ofCommands position p.commands).segments
  diagnostics := p.diagnostics
  commandCount := p.commands.length

/-- The program of a text, traced from the origin. -/
def ofText (o : Options) (t : Text) : Simulation α := ofProgram (some .origin) (.ofText o t)

/-- The program of the file at a path, traced from the origin, given what opening it gave. -/
def ofFile (o : Options) (path : Text) (opened : Except SourceError Source) : Simulation α :=
  ofProgram (some .origin) (.ofFile o path opened)

/-- The file of the program could not be read. -/
def hasFileError (s : Simulation α) : Bool := Diagnostic.hasFileError s.diagnostics

end Simulation
end Motion
