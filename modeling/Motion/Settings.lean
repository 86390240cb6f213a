/-
# Settings

What a user sets once for all programs: how they are read, how they are shown, and which files were
opened lately.

Not every value is good (`Settings.fault?`).  An arc needs at least one step.  A comment character
must not be able to stand in a word of a program, so letters, digits, blanks, signs and points are
refused.

The recent files are a list without repetitions, the last one first, and no longer than
`recentLimit`.  Two paths are the same file there when they have the same parts.
-/
import Motion.Program.Mode
import Motion.Storage.Path
import Motion.Text.Quoted

namespace Motion

/-- How a program is shown. -/
structure PlaybackOptions where
  /-- The number of steps in which an arc is drawn. -/
  arcSegments : UInt32 := 64
  /-- Whether a program is shown whole at first. -/
  startAtEnd : Bool := false
  deriving Repr, DecidableEq

/-- All settings. -/
structure Settings where
  parser : Options := {}
  playback : PlaybackOptions := {}
  recentFiles : List Text := []
  deriving Repr, DecidableEq

/-- Which value is no good. -/
inductive SettingsFault where
  /-- Arcs without steps. -/
  | noArcSegments
  /-- A character that can stand in a word. -/
  | commentChar (c : Char)
  deriving Repr, DecidableEq

/-- The wording of a fault. -/
def SettingsFault.message : SettingsFault → String
  | noArcSegments => "Value out of range for 'playback.arc_segments': 0"
  | commentChar c => s!"Value out of range for 'parser.comment_char': {Text.quoted c}"

namespace Settings

/-- A character that can start a comment: it is no part of a number, a letter or a blank. -/
def isCommentChar (c : Char) : Bool :=
  !(Text.isAlphanumeric c || Text.isBlank c || c == '.' || c == '-' || c == '+')

/-- The first value that is no good. -/
def fault? (s : Settings) : Option SettingsFault :=
  if s.playback.arcSegments = 0 then some .noArcSegments
  else if !isCommentChar s.parser.comment then some (.commentChar s.parser.comment)
  else none

/-- The greatest number of recent files. -/
def recentLimit : Nat := 10

/-- The recent files after one more was opened. -/
def addRecent (path : Text) (recent : List Text) : List Text :=
  (path :: recent.filter (fun p => !Path.same p path)).take recentLimit

end Settings
end Motion
