/-
# Runs

A run of the command line, from its arguments to its last line.  It reads the arguments, finds the
settings, loads and traces the program, notes the words of the program that it cannot read, and
prints the report; where one of these fails, the run fails there.  `Run.outcome` is what it has
written by then, and its exit code.

A run sees files only through what stands at the paths it names (`Run.paths`), so its outcome is a
function of its arguments and of those.
-/
import Motion.CommandLine.Invocation
import Motion.CommandLine.Report
import Motion.Settings.Files

namespace Motion

/-- What reading a program finds at a path. -/
def Source.ofNode (path : Text) : Option Node → Except SourceError Source
  | none => .error (.missing path)
  | some .directory => .error (.notAFile path)
  | some (.locked reason) => .error (.unreadable reason)
  | some (.file bytes) => .ok (.ofBytes bytes)

/-- A diagnostic as the log shows it. -/
def Diagnostic.noteLine (d : Diagnostic) : String := s!"line {d.line.toNat}: {d.display}"

namespace Run

/-- The settings of a run: those of the file that was asked for, or else of the default file. -/
def settings (look : Text → Option Node) (defaultPath? : Option Text) :
    Option Text → Except String Settings
  | some path =>
    (Settings.load path (look path)).mapError fun _ => s!"loading config {String.ofList path}"
  | none => (Settings.loadOrDefault look defaultPath?).mapError DefaultError.message

/-- Takes the diagnostics of a program one after the other: a warning is noted, and with an error
the run fails. -/
def heed : List Diagnostic → Console Unit
  | [] => pure ()
  | d :: rest =>
    match d.severity with
    | .warning => do
      Console.note d.noteLine
      heed rest
    | .error => Console.fail d.message

/-- A run, given what stands where and the path of the default settings file, if it has one. -/
def main (look : Text → Option Node) (defaultPath? : Option Text) (args : List Text) :
    Console Unit := do
  match ← Console.attempt ((Invocation.ofArguments args).mapError ArgumentFault.message) with
  | .help =>
    Console.print usage
    Console.stop
  | .simulate program config steps =>
    let chosen ← Console.attempt (settings look defaultPath? config)
    let s := Simulation.ofFile chosen.parser program (Source.ofNode program (look program))
    heed s.diagnostics
    Report.print program steps chosen.playback s

/-- What a run comes to. -/
def outcome (look : Text → Option Node) (defaultPath? : Option Text) (args : List Text) : Outcome :=
  (main look defaultPath? args).outcome

/-- The paths that a run looks at. -/
def paths (defaultPath? : Option Text) (args : List Text) : List Text :=
  match Invocation.ofArguments args with
  | .ok (.simulate program config _) => (config <|> defaultPath?).toList ++ [program]
  | _ => []

end Run
end Motion
