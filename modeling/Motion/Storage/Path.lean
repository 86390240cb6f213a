/-
# Paths

A path is a text in which slashes separate names.  Two paths are the same when they have the same
parts (`Path.parts`): repeated and trailing slashes separate nothing more, and a single point
counts only as the first part of a relative path.  Nothing is looked up for this, so two different
paths may still lead to the same place.
-/
import Motion.Text.Blank

namespace Motion.Path

/-- One part of a path. -/
inductive Part where
  /-- The root, at the start of an absolute path. -/
  | root
  /-- A point at the start of a relative path: where one is. -/
  | here
  /-- Two points: one place up. -/
  | up
  | name (n : Text)
  deriving Repr, DecidableEq

/-- The part that stands between two slashes, if something does. -/
def part? (piece : Text) : Option Part :=
  if piece.isEmpty || piece == ['.'] then none
  else if piece == ['.', '.'] then some .up
  else some (.name piece)

/-- The parts of a path. -/
def parts (path : Text) : List Part :=
  let pieces := path.splitOn '/'
  let start : List Part :=
    if path.head? == some '/' then [.root]
    else if pieces.head? == some ['.'] then [.here]
    else []
  start ++ pieces.filterMap part?

/-- Two paths have the same parts. -/
def same (p q : Text) : Bool := parts p == parts q

/-- The name at the end of a path. -/
def name? (path : Text) : Option Text :=
  match (parts path).getLast? with
  | some (.name n) => some n
  | _ => none

/-- What follows the last point of a name, if something precedes it. -/
def extensionOf? (name : Text) : Option Text :=
  let ending := (name.reverse.takeWhile (· != '.')).reverse
  if ending.length + 1 < name.length then some ending else none

/-- The extension of the name at the end of a path. -/
def extension? (path : Text) : Option Text := (name? path).bind extensionOf?

/-- The path to the directory that holds what a path names: the pieces before its last part, as they
are written. -/
def directory (path : Text) : Text :=
  let isBare (piece : Text) := (part? piece).isNone
  let pieces := (path.splitOn '/').reverse.dropWhile isBare
  List.intercalate ['/'] ((pieces.drop 1).dropWhile isBare).reverse

/-- One more name behind a path. -/
def join (path name : Text) : Text :=
  if path.isEmpty || path.getLast? == some '/' then path ++ name else path ++ '/' :: name

end Motion.Path
