/-
# Settings files

Loading takes what stands at a path and gives settings that are good, or the first of these causes:
the file cannot be read as text, its extension is of no known format, it cannot be read in that
format, a value is no good.  Without a path, the default file is loaded if it is there, and
otherwise the settings are the default ones; but where there is no directory for settings, there is
no path of a default file, and that is an error (`loadOrDefault`).

Saving checks before it touches anything: first the values, then the format.  Only then the
directories on the way are made and the file is written.
-/
import Motion.Settings.Formats
import Motion.Storage

namespace Motion

/-- Why settings cannot be loaded or saved. -/
inductive SettingsError where
  /-- The store refuses. -/
  | storage (reason : String)
  /-- The text says no settings in its format. -/
  | unreadable (format : Format)
  | unknownFormat (extension : Option Text)
  | fault (f : SettingsFault)
  deriving Repr, DecidableEq

/-- The wording of an error.  What exactly is wrong with a document is not told. -/
def SettingsError.message : SettingsError → String
  | storage reason => s!"I/O error: {reason}"
  | unreadable .json => "JSON error: the document says no settings"
  | unreadable .toml => "TOML error: the document says no settings"
  | unknownFormat extension =>
    let shown := match extension with
      | some e => String.ofList e
      | none => "<none>"
    s!"Config error: Unsupported config format: {shown}"
  | fault f => s!"Config error: {f.message}"

/-- Why settings cannot be had without a path. -/
inductive DefaultError where
  /-- There is no directory for settings. -/
  | noDirectory
  | settings (e : SettingsError)
  deriving Repr, DecidableEq

/-- The wording of an error. -/
def DefaultError.message : DefaultError → String
  | noDirectory => "Config directory error: no configuration directory on this platform"
  | settings e => e.message

namespace Settings

/-- The default settings file under a directory for settings. -/
def defaultPath (directory : Text) : Text :=
  Path.join (Path.join directory "gcodesim".toList) "config.toml".toList

/-- The default settings file, if there is a directory for settings. -/
def defaultPath? (directory? : Option Text) : Option Text := directory?.map defaultPath

/-- The text of what stands at a path. -/
def readText : Option Node → Except SettingsError Text
  | some (.file bytes) =>
    match Text.decode? bytes with
    | some t => .ok t
    | none => .error (.storage "stream did not contain valid UTF-8")
  | some .directory => .error (.storage "Is a directory (os error 21)")
  | some (.locked reason) => .error (.storage reason)
  | none => .error (.storage "No such file or directory (os error 2)")

/-- The format of a path. -/
def formatOf (path : Text) : Except SettingsError Format :=
  match Format.ofPath? path with
  | some format => .ok format
  | none => .error (.unknownFormat (Path.extension? path))

/-- Settings that are good. -/
def check (s : Settings) : Except SettingsError Settings :=
  match s.fault? with
  | some f => .error (.fault f)
  | none => .ok s

/-- The settings of the file at a path, given what stands there. -/
def load (path : Text) (node : Option Node) : Except SettingsError Settings := do
  let t ← readText node
  let format ← formatOf path
  match format.read? t with
  | some s => check s
  | none => .error (.unreadable format)

/-- The settings of the default file, given what stands at its path. -/
def loadDefault (path : Text) : Option Node → Except SettingsError Settings
  | some (.file bytes) => load path (some (.file bytes))
  | some (.locked reason) => load path (some (.locked reason))
  | _ => .ok {}

/-- The settings without a path of their own: those of the default file, which needs a directory to
be in. -/
def loadOrDefault (look : Text → Option Node) : Option Text → Except DefaultError Settings
  | none => .error .noDirectory
  | some path => (loadDefault path (look path)).mapError .settings

/-- The text that saving writes. -/
def saved (s : Settings) (path : Text) : Except SettingsError Text := do
  let s ← check s
  let format ← formatOf path
  .ok (format.write s)

/-- The settings, saved at a path: the store that this leaves, and the text written. -/
def save (s : Settings) (path : Text) (store : Storage) : Storage × Except SettingsError Text :=
  match saved s path with
  | .error e => (store, .error e)
  | .ok t =>
    match store.makeDirectories (Path.directory path) with
    | (store, false) => (store, .error (.storage "cannot make the directories of the file"))
    | (store, true) =>
      match store.write? path (Text.encode t) with
      | some store => (store, .ok t)
      | none => (store, .error (.storage "cannot write the file"))

end Settings
end Motion
