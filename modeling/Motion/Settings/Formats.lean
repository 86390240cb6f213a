/-
# The formats of settings

Settings are kept as JSON or as TOML, and the extension of the file decides (`Format.ofPath?`).  The
formats differ in what their values are good for (`jsonView`, `tomlView`) and in how the settings
are laid out (`Settings.toJson`, `Settings.toToml`).

A count is a whole number without a sign, a point or a power of ten in JSON; in TOML, any whole
number of 32 bits.
-/
import Motion.Settings.Reading
import Motion.Json.Reader
import Motion.Json.Writer
import Motion.Toml.Reader

namespace Motion

/-- A format of settings. -/
inductive Format where
  | json
  | toml
  deriving Repr, DecidableEq

namespace Settings

/-- A count, if it fits into 32 bits. -/
def count? (n : Nat) : Option UInt32 := if n < UInt32.size then some (UInt32.ofNat n) else none

/-! ## JSON -/

/-- What JSON values are good for. -/
def jsonView : View Json where
  entries?
    | .object members => some (members.map fun m => (Mark.text? m.1, m.2))
    | _ => none
  items?
    | .array items => some items
    | _ => none
  sparesItems := false
  text?
    | .string marks => Mark.text? marks
    | _ => none
  flag?
    | .bool b => some b
    | _ => none
  count?
    | .number digits => (Text.readNatural? digits).bind count?
    | _ => none
  isVoid
    | .null => true
    | _ => false

/-- A member of an object. -/
def jsonMember (key : String) (v : Json) : List Mark × Json := (Mark.ofText key.toList, v)

/-- The settings as a JSON value. -/
def toJson (s : Settings) : Json :=
  .object
    [jsonMember "parser" (.object
      [jsonMember "coordinate_mode" (.text s.parser.mode.name.toList),
       jsonMember "comment_char" (.text [s.parser.comment])]),
     jsonMember "playback" (.object
      [jsonMember "arc_segments" (.count s.playback.arcSegments.toNat),
       jsonMember "start_at_end" (.bool s.playback.startAtEnd)]),
     jsonMember "recent_files" (.array (s.recentFiles.map .text))]

/-! ## TOML -/

/-- What TOML values are good for.  A date or time is a table of parts, of which none is a setting.
-/
def tomlView : View Toml.Value where
  entries?
    | .table _ members => some (members.map fun m => (some m.1, m.2))
    | .moment => some []
    | _ => none
  items?
    | .array items => some items
    | .tables elements => some (elements.map (.table .header))
    | _ => none
  sparesItems := true
  text?
    | .text t => some t
    | _ => none
  flag?
    | .bool b => some b
    | _ => none
  count?
    | .whole n => if 0 ≤ n then count? n.toNat else none
    | _ => none
  isVoid
    | .table _ members => members.isEmpty
    | .array items => items.isEmpty
    | _ => false

/-- A list of texts: each on a line of its own if there are several. -/
def tomlTexts : List Text → Text
  | [] => ['[', ']']
  | [t] => '[' :: Toml.writeString t ++ [']']
  | ts =>
    '[' :: ts.flatMap (fun t => "\n    ".toList ++ Toml.writeString t ++ [',']) ++ "\n]".toList

/-- A line that gives a key its value. -/
def tomlLine (key : String) (v : Text) : Text := key.toList ++ " = ".toList ++ v ++ ['\n']

/-- The settings as a TOML text. -/
def toToml (s : Settings) : Text :=
  tomlLine "recent_files" (tomlTexts s.recentFiles) ++
    "\n[parser]\n".toList ++
    tomlLine "coordinate_mode" (Toml.writeString s.parser.mode.name.toList) ++
    tomlLine "comment_char" (Toml.writeString [s.parser.comment]) ++
    "\n[playback]\n".toList ++
    tomlLine "arc_segments" (Nat.toDigits 10 s.playback.arcSegments.toNat) ++
    tomlLine "start_at_end" (if s.playback.startAtEnd then "true" else "false").toList

end Settings

namespace Format

/-- The format of a file, by the extension of its path. -/
def ofPath? (path : Text) : Option Format :=
  match Path.extension? path with
  | some ['j', 's', 'o', 'n'] => some .json
  | some ['t', 'o', 'm', 'l'] => some .toml
  | _ => none

/-- The settings that a text says in a format. -/
def read? (t : Text) : Format → Option Settings
  | json => (Json.read? t).bind (Settings.ofDocument? Settings.jsonView)
  | toml => (Toml.read? t).bind fun ms =>
      Settings.ofDocument? Settings.tomlView (.table .header ms)

/-- The settings as a text in a format. -/
def write (s : Settings) : Format → Text
  | json => Json.write s.toJson
  | toml => s.toToml

end Format
end Motion
