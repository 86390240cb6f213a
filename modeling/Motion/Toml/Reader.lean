/-
# Reading TOML

A text is read line by line: a line is empty but for a comment, opens a table with a header, or
gives a key its value.  Values may go on over several lines, in strings and in arrays.  As in JSON,
a reader takes what it can from the start of a text and gives that and the rest.

Arrays and tables between braces may stand inside each other up to a depth (`maxDepth`), and a key
may have only so many parts (`maxParts`).  The depth that is left is what `readValue?` recurs on;
the readers of repeated things have a number of turns left, of which each takes at least one
character.
-/
import Motion.Toml.Scalar
import Motion.Toml.Quoted

namespace Motion.Toml

/-- The greatest depth to which arrays and tables between braces may stand inside each other. -/
def maxDepth : Nat := 79

/-- The greatest number of parts of a key. -/
def maxParts : Nat := 79

/-! ## Blanks, comments and line ends -/

/-- A blank within a line. -/
def isGap (c : Char) : Bool := c == ' ' || c == '\t'

/-- The text from its next character that is no blank. -/
def skip (t : Text) : Text := t.dropWhile isGap

/-- The text behind a line end, which the end of the text is too. -/
def lineEnd? : Text → Option Text
  | [] => some []
  | '\n' :: rest => some rest
  | '\r' :: '\n' :: rest => some rest
  | _ => none

/-- The text behind the line: blanks, a comment, and the line end. -/
def finishLine? (t : Text) : Option Text :=
  match skip t with
  | '#' :: rest => lineEnd? (rest.dropWhile isPlain)
  | rest => lineEnd? rest

/-- The text from the next thing on, behind blanks, line ends and comments; in a comment it begins
at the next line end. -/
def skipLines? : (inComment : Bool) → Text → Option Text
  | _, [] => some []
  | _, '\n' :: rest => skipLines? false rest
  | _, '\r' :: '\n' :: rest => skipLines? false rest
  | true, c :: rest => if isPlain c then skipLines? true rest else none
  | false, '#' :: rest => skipLines? true rest
  | false, c :: rest => if isGap c then skipLines? false rest else some (c :: rest)

/-! ## Keys -/

/-- A character of a key without quotes. -/
def isKeyChar (c : Char) : Bool := c.isAlphanum || c == '_' || c == '-'

/-- One part of a key. -/
def readPart? (t : Text) : Option (Text × Text) :=
  let bare := t.takeWhile isKeyChar
  if bare.isEmpty then readShortString? t else some (bare, t.dropWhile isKeyChar)

/-- The parts of a key, with points between them and blanks around the points. -/
def readParts? : Nat → Text → Option (List Text × Text)
  | 0, _ => none
  | turns + 1, t => do
    let (part, rest) ← readPart? (skip t)
    match skip rest with
    | '.' :: rest =>
      let (parts, rest) ← readParts? turns rest
      some (part :: parts, rest)
    | rest => some ([part], rest)

/-- A key, and the text from its next character that is no blank. -/
def readKey? (t : Text) : Option (List Text × Text) := readParts? maxParts t

/-! ## Values -/

/-- A key, an equals sign and a value. -/
def readEntry? (value : Text → Option (Value × Text)) (t : Text) :
    Option ((List Text × Value) × Text) := do
  let (key, rest) ← readKey? t
  match rest with
  | '=' :: rest =>
    let (v, rest) ← value (skip rest)
    some ((key, v), rest)
  | _ => none

/-- The items of an array, from behind its opening bracket or a comma. -/
def readItems? (value : Text → Option (Value × Text)) : Nat → Text → Option (List Value × Text)
  | 0, _ => none
  | turns + 1, t => do
    match ← skipLines? false t with
    | ']' :: rest => some ([], rest)
    | t =>
      let (first, rest) ← value t
      match ← skipLines? false rest with
      | ']' :: rest => some ([first], rest)
      | ',' :: rest =>
        let (others, rest) ← readItems? value turns rest
        some (first :: others, rest)
      | _ => none

/-- The entries of a table between braces, from behind its brace or a comma, added to those before.
Here a comma needs an entry behind it. -/
def readEntries? (value : Text → Option (Value × Text)) :
    Nat → Members → Text → Option (Members × Text)
  | 0, _, _ => none
  | turns + 1, ms, t => do
    let ((key, v), rest) ← readEntry? value t
    let ms ← assign v false .header key ms
    match skip rest with
    | '\x7d' :: rest => some (ms, rest)
    | ',' :: rest => readEntries? value turns ms rest
    | _ => none

/-- A table between braces, from behind its opening brace. -/
def readBraces? (value : Text → Option (Value × Text)) (turns : Nat) (t : Text) :
    Option (Members × Text) :=
  match skip t with
  | '\x7d' :: rest => some ([], rest)
  | t => readEntries? value turns [] t

/-- A string or a bare value. -/
def readScalar? (t : Text) : Option (Value × Text) :=
  match readString? t with
  | some (s, rest) => some (.text s, rest)
  | none =>
    let (run, rest) := bareRun t
    (bareValue? run).map fun v => (v, rest)

/-- A value, with the depth that is left for arrays and tables in it. -/
def readValue? : Nat → Text → Option (Value × Text)
  | depth + 1, '[' :: rest =>
    (readItems? (readValue? depth) (rest.length + 1) rest).map fun r => (.array r.1, r.2)
  | depth + 1, '\x7b' :: rest =>
    (readBraces? (readValue? depth) (rest.length + 1) rest).map fun r => (.table .closed r.1, r.2)
  | _, t => readScalar? t

/-! ## Lines -/

/-- The table of the text so far, and the header under which it goes on. -/
structure Draft where
  members : Members
  header : List Text

/-- A header line, from behind its first bracket: a table, or one more element of an array of
tables. -/
def readHeader? (draft : Draft) : Text → Option (Draft × Text)
  | '[' :: rest => do
    let (path, rest) ← readKey? rest
    let ms ← openElement path draft.members
    match rest with
    | ']' :: ']' :: rest => (finishLine? rest).map fun rest => (⟨ms, path⟩, rest)
    | _ => none
  | t => do
    let (path, rest) ← readKey? t
    let ms ← openTable path draft.members
    match rest with
    | ']' :: rest => (finishLine? rest).map fun rest => (⟨ms, path⟩, rest)
    | _ => none

/-- A line that gives a key its value. -/
def readAssignment? (draft : Draft) (t : Text) : Option (Draft × Text) := do
  let ((key, v), rest) ← readEntry? (readValue? maxDepth) t
  let ms ← atTable (assign v false .header key) draft.header draft.members
  (finishLine? rest).map fun rest => (⟨ms, draft.header⟩, rest)

/-- One line. -/
def readLine? (draft : Draft) (t : Text) : Option (Draft × Text) :=
  match skip t with
  | '[' :: rest => readHeader? draft rest
  | t =>
    match finishLine? t with
    | some rest => some (draft, rest)
    | none => readAssignment? draft t

/-- All lines. -/
def readLines? : Nat → Draft → Text → Option Members
  | _, draft, [] => some draft.members
  | 0, _, _ => none
  | turns + 1, draft, t => do
    let (draft, rest) ← readLine? draft t
    readLines? turns draft rest

/-- The table of a whole text.  A byte order mark may precede it. -/
def read? (t : Text) : Option Members :=
  let t := if t.head? == some (Char.ofNat 0xFEFF) then t.drop 1 else t
  readLines? (t.length + 1) ⟨[], []⟩ t

end Motion.Toml
