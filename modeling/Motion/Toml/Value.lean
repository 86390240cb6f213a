/-
# TOML values and tables

What a TOML text describes, under construction: a table that grows line by line.  Every table
remembers how it came to be (`Toml.Form`), because that decides whether it may still grow:

* `assign` enters a key and its value; keys with points lead through tables that only such keys
  have made;
* `openTable` starts the table of a header: a new one, or one that so far only was on the way to
  others;
* `openElement` starts one more table in an array of tables.

The ways lead into the last table of an array of tables, and never into a value.  Numbers that are
not whole, dates and times are kept only as what they are, since no setting has such a value.
-/
import Motion.Text.Blank

namespace Motion.Toml

/-- How a table came to be. -/
inductive Form where
  /-- By a header of its own. -/
  | header
  /-- By a header of a table inside it. -/
  | implicit
  /-- By a key with points. -/
  | dotted
  /-- Between braces.  Such a table is complete. -/
  | closed
  deriving Repr, DecidableEq

/-- A value of a key. -/
inductive Value where
  | text (t : Text)
  | whole (n : Int)
  | real
  | bool (b : Bool)
  /-- A date, a time, or both. -/
  | moment
  /-- An array between brackets. -/
  | array (items : List Value)
  | table (form : Form) (members : List (Text × Value))
  /-- An array of tables, each with a header. -/
  | tables (elements : List (List (Text × Value)))

/-- The keys of a table and their values. -/
abbrev Members := List (Text × Value)

/-- The members with another value for a key that they have, or with one more key. -/
def put (key : Text) (v : Value) : Members → Members
  | [] => [(key, v)]
  | entry :: rest => if entry.1 == key then (key, v) :: rest else entry :: put key v rest

/-- The last element of an array of tables, changed. -/
def changeLast {β : Type} (change : β → Option β) : List β → Option (List β)
  | [] => none
  | [last] => (change last).map (fun last => [last])
  | element :: rest => (changeLast change rest).map (element :: ·)

/-- A table, changed, if a header may lead into it; a missing one is made. -/
def through (change : Members → Option Members) : Option Value → Option Value
  | none => (change []).map (.table .implicit)
  | some (.table .closed _) => none
  | some (.table form ms) => (change ms).map (.table form)
  | some (.tables elements) => (changeLast change elements).map .tables
  | some _ => none

/-- A header leads to the members of a table and changes the entry of its last key. -/
def atHeader (change : Option Value → Option Value) : List Text → Members → Option Members
  | [], _ => none
  | [key], ms => (change (ms.lookup key)).map fun v => put key v ms
  | key :: path, ms =>
    (through (atHeader change path) (ms.lookup key)).map fun v => put key v ms

/-- The table of a header: new, or so far only on the way to others. -/
def openTable (path : List Text) (ms : Members) : Option Members :=
  atHeader
    (fun
      | none => some (.table .header [])
      | some (.table .implicit ms) => some (.table .header ms)
      | some _ => none)
    path ms

/-- One more table of an array of tables, which may be new. -/
def openElement (path : List Text) (ms : Members) : Option Members :=
  atHeader
    (fun
      | none => some (.tables [[]])
      | some (.tables elements) => some (.tables (elements ++ [[]]))
      | some _ => none)
    path ms

/-- The table of the current header, changed.  The text before the first header belongs to the table
of the whole text. -/
def atTable (change : Members → Option Members) : List Text → Members → Option Members
  | [], ms => change ms
  | key :: path, ms =>
    (through (atTable change path) (ms.lookup key)).map fun v => put key v ms

/-- A table with one more value.  A key with points leads through tables that such keys have made,
and has to end in one of them; on the way it may pass the last table of an array.  `inner` says
that a point came before, and `form` how the table came to be. -/
def assign (v : Value) : (inner : Bool) → Form → List Text → Members → Option Members
  | _, _, [], _ => none
  | inner, form, [key], ms =>
    if (inner && form != .dotted) || (ms.lookup key).isSome then none else some (put key v ms)
  | _, _, key :: path, ms =>
    let entry : Option Value :=
      match ms.lookup key with
      | none => (assign v true .dotted path []).map (.table .dotted)
      | some (.table .dotted below) => (assign v true .dotted path below).map (.table .dotted)
      | some (.table .implicit below) => (assign v true .implicit path below).map (.table .implicit)
      | some (.tables elements) => (changeLast (assign v true .header path) elements).map .tables
      | some _ => none
    entry.map fun entry => put key entry ms

end Motion.Toml
