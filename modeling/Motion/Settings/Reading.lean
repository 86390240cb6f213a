/-
# Reading settings

One rule for settings documents of any format.  A document is a value, and a `View` says what a
reader needs to know of the values of its format.

Every setting is optional, and so is every section; what a document leaves out keeps its default.
A section is a table: keys that name no setting are passed over, and a key that names one must not
occur twice.  It may also be a list, which gives the settings in order.  A value of the wrong kind
makes the whole document unreadable, whatever else it says.
-/
import Motion.Settings

namespace Motion.Settings

/-- What the values of a format are good for. -/
structure View (δ : Type) where
  /-- The entries of a table, in order; an entry has no key if its key is no text. -/
  entries? : δ → Option (List (Option Text × δ))
  /-- The items of a list. -/
  items? : δ → Option (List δ)
  /-- Whether a list may have more items than its section has settings. -/
  sparesItems : Bool
  text? : δ → Option Text
  flag? : δ → Option Bool
  /-- A count of 32 bits. -/
  count? : δ → Option UInt32
  /-- The value that says nothing, beside the name of a choice. -/
  isVoid : δ → Bool

/-- One setting of a section: its key, and what a value makes of the section. -/
structure Setting (δ σ : Type) where
  key : Text
  set? : δ → σ → Option σ

variable {δ σ : Type}

/-- The setting with a key, and the others. -/
def findSetting? (key : Text) : List (Setting δ σ) → Option (Setting δ σ)
  | [] => none
  | s :: rest => if s.key == key then some s else findSetting? key rest

/-- The section after some entries, of which the ones before had the keys `seen`. -/
def readEntries? (settings : List (Setting δ σ)) :
    (seen : List Text) → σ → List (Option Text × δ) → Option σ
  | _, current, [] => some current
  | _, _, (none, _) :: _ => none
  | seen, current, (some key, v) :: rest =>
    match findSetting? key settings with
    | none => readEntries? settings seen current rest
    | some s =>
      if seen.contains key then none
      else (s.set? v current).bind fun next => readEntries? settings (key :: seen) next rest

/-- The section after some items, each for one setting. -/
def readItems? (spares : Bool) : List (Setting δ σ) → σ → List δ → Option σ
  | _, current, [] => some current
  | [], current, _ :: _ => if spares then some current else none
  | s :: settings, current, v :: rest =>
    (s.set? v current).bind fun next => readItems? spares settings next rest

/-- A section, given its defaults. -/
def readSection? (view : View δ) (settings : List (Setting δ σ)) (default : σ) (v : δ) : Option σ :=
  match view.entries? v with
  | some entries => readEntries? settings [] default entries
  | none => (view.items? v).bind (readItems? view.sparesItems settings default)

/-- A coordinate mode: its name, or a table with its name alone and nothing beside it. -/
def readMode? (view : View δ) (v : δ) : Option CoordinateMode :=
  match view.text? v with
  | some name => CoordinateMode.ofName? name
  | none =>
    match view.entries? v with
    | some [(some name, v)] => if view.isVoid v then CoordinateMode.ofName? name else none
    | _ => none

/-- A text of one character. -/
def readChar? (view : View δ) (v : δ) : Option Char :=
  match view.text? v with
  | some [c] => some c
  | _ => none

/-- The settings of the section that says how programs are read. -/
def parserSettings (view : View δ) : List (Setting δ Options) :=
  [⟨"coordinate_mode".toList, fun v o => (readMode? view v).map fun m => { o with mode := m }⟩,
   ⟨"comment_char".toList, fun v o => (readChar? view v).map fun c => { o with comment := c }⟩]

/-- The settings of the section that says how programs are shown. -/
def playbackSettings (view : View δ) : List (Setting δ PlaybackOptions) :=
  [⟨"arc_segments".toList, fun v o => (view.count? v).map fun n => { o with arcSegments := n }⟩,
   ⟨"start_at_end".toList, fun v o => (view.flag? v).map fun b => { o with startAtEnd := b }⟩]

/-- The sections of a whole document. -/
def sections (view : View δ) : List (Setting δ Settings) :=
  [⟨"parser".toList, fun v s =>
      (readSection? view (parserSettings view) {} v).map fun o => { s with parser := o }⟩,
   ⟨"playback".toList, fun v s =>
      (readSection? view (playbackSettings view) {} v).map fun o => { s with playback := o }⟩,
   ⟨"recent_files".toList, fun v s =>
      ((view.items? v).bind (List.mapM view.text?)).map fun ps => { s with recentFiles := ps }⟩]

/-- The settings that a document says. -/
def ofDocument? (view : View δ) (v : δ) : Option Settings := readSection? view (sections view) {} v

end Motion.Settings
