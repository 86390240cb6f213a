/-
# Settings in memory

While settings are in use, their recent files are paths as the system gives them, and such a path
is any sequence of bytes (`HeldSettings`).  Settings that were loaded have texts there, and so must
settings that are saved: neither format can say a path that is no text.  Saving finds that out after
it has checked the values and the format, and still before it touches anything.

A session holds settings and sees a store.  It loads and saves them and opens files
(`Session.handle`), and in between others may do with the store what they like.
-/
import Motion.Settings.Files

namespace Motion

/-- A path as the system gives it. -/
abbrev SystemPath := List UInt8

namespace SystemPath

/-- The path with one character for each byte.  The slashes and points are the same. -/
def spelled (p : SystemPath) : Text := p.map fun b => Char.ofNat b.toNat

/-- Two paths have the same parts, byte by byte. -/
def same (p q : SystemPath) : Bool := Path.same p.spelled q.spelled

end SystemPath

/-- All settings, as they are held in memory. -/
structure HeldSettings where
  parser : Options := {}
  playback : PlaybackOptions := {}
  recentFiles : List SystemPath := []
  deriving Repr, DecidableEq

/-- Why settings in memory cannot be saved. -/
inductive SavingError where
  | settings (e : SettingsError)
  /-- A recent file is no text, so the format cannot say it. -/
  | unwritable (format : Format)
  deriving Repr, DecidableEq

namespace HeldSettings

/-- Settings as they are held after they were loaded. -/
def ofSettings (s : Settings) : HeldSettings where
  parser := s.parser
  playback := s.playback
  recentFiles := s.recentFiles.map Text.encode

/-- The settings to write, if every recent file is a text. -/
def settings? (h : HeldSettings) : Option Settings :=
  (h.recentFiles.mapM Text.decode?).map fun paths =>
    { parser := h.parser, playback := h.playback, recentFiles := paths }

/-- The first value that is no good.  Any path may be a recent file. -/
def fault? (h : HeldSettings) : Option SettingsFault :=
  ({ parser := h.parser, playback := h.playback } : Settings).fault?

/-- The settings, saved at a path: the store that this leaves, and the text written. -/
def save (h : HeldSettings) (path : Text) (store : Storage) : Storage × Except SavingError Text :=
  match h.fault? with
  | some f => (store, .error (.settings (.fault f)))
  | none =>
    match Settings.formatOf path with
    | .error e => (store, .error (.settings e))
    | .ok format =>
      match h.settings? with
      | none => (store, .error (.unwritable format))
      | some s => ((s.save path store).1, (s.save path store).2.mapError .settings)

/-- The settings after a file was opened. -/
def addRecent (h : HeldSettings) (path : SystemPath) : HeldSettings :=
  let others := h.recentFiles.filter fun p => !SystemPath.same p path
  { h with recentFiles := (path :: others).take Settings.recentLimit }

/-- The settings after an attempt to load others: these stay if there is an error. -/
def orLoaded {ε : Type} (h : HeldSettings) : Except ε Settings → HeldSettings
  | .ok s => ofSettings s
  | .error _ => h

end HeldSettings

/-- Settings in memory, and the store that they are loaded from and saved to. -/
structure Session where
  held : HeldSettings := {}
  store : Storage
  deriving Repr, DecidableEq

/-- What can happen in a session. -/
inductive Event where
  | load (path : Text)
  /-- The default file is loaded, given the directory for settings if there is one. -/
  | loadDefault (directory? : Option Text)
  | save (path : Text)
  | addRecent (path : SystemPath)
  /-- Others leave the store in this state. -/
  | changed (store : Storage)
  deriving Repr, DecidableEq

namespace Session

/-- The session after one event. -/
def handle (σ : Session) : Event → Session
  | .load path => { σ with held := σ.held.orLoaded (Settings.load path (σ.store.look path)) }
  | .loadDefault directory? =>
    let path? := Settings.defaultPath? directory?
    { σ with held := σ.held.orLoaded (Settings.loadOrDefault σ.store.look path?) }
  | .save path => { σ with store := (σ.held.save path σ.store).1 }
  | .addRecent path => { σ with held := σ.held.addRecent path }
  | .changed store => { σ with store := store }

/-- The session after some events, one after the other. -/
def run (σ : Session) (events : List Event) : Session := events.foldl handle σ

end Session
end Motion
