/-
# The command line

The outer layer: it finds the directory for settings, looks at the files that the run names, and
writes what the run comes to.
-/
import Motion.CommandLine.Run
import Motion.Storage

namespace Motion

/-- The directory for the user's settings, if there is one. -/
def settingsDirectory : IO (Option Text) := do
  match ← IO.getEnv "XDG_CONFIG_HOME" with
  | some directory => if directory.startsWith "/" then return some directory.toList
  | none => pure ()
  match ← IO.getEnv "HOME" with
  | some home =>
    if home.isEmpty then return none
    return some (Path.join home.toList ".config".toList)
  | none => return none

/-- What stands at a path, given what went wrong there.  A directory can be opened but not read, and
that error names no file.  Nothing stands behind a file or under a name that is too long. -/
def nodeOfError : IO.Error → Option Node
  | .noFileOrDirectory .. => none
  | .inappropriateType none .. => some .directory
  | .inappropriateType .. => none
  | .invalidArgument .. => none
  | error => some (.locked (toString error))

/-- What stands at a path. -/
def lookAt (path : Text) : IO (Option Node) := do
  unless Storage.isPath path do return none
  try
    let data ← IO.FS.readBinFile (String.ofList path)
    return some (.file data.toList)
  catch error => return nodeOfError error

end Motion

/-- Runs the command line. -/
def main (args : List String) : IO UInt32 := do
  let args := args.map String.toList
  let defaultPath? := Motion.Settings.defaultPath? (← Motion.settingsDirectory)
  let paths := Motion.Run.paths defaultPath? args
  let found ← paths.mapM fun path => do return (path, ← Motion.lookAt path)
  let result := Motion.Run.outcome (fun path => (found.lookup path).join) defaultPath? args
  IO.eprint (String.ofList result.log)
  IO.print (String.ofList result.output)
  unless result.complaint.isEmpty do
    IO.eprint s!"Error: {String.ofList result.complaint}"
  return UInt32.ofNat result.code
