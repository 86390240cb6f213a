/-
# Files

A store of directories and files, as a program sees it that is run in one of its directories.  A
`Place` is the chain of names that leads to it from the root, innermost first.  A path is followed
name by name (`Storage.resolve?`), and each name is looked up in a directory, so nothing is found
behind a file and a slash at the end of a path asks for a directory.  A path that cannot be given
at all (`Storage.isPath`) leads nowhere.

What can fail leaves the store as it was, with one exception: when the directories of a path are
made one after the other, those that were made before a failure stay (`Storage.makeDirectories`).
-/
import Motion.Storage.Path
import Motion.Text.Utf8

namespace Motion

/-- What can stand at a place. -/
inductive Node where
  | directory
  | file (bytes : List UInt8)
  /-- A file that cannot be read, and why. -/
  | locked (reason : String)
  deriving Repr, DecidableEq

/-- The names that lead to a place from the root, the innermost first. -/
abbrev Place := List Text

/-- A store, and the directory in which relative paths start. -/
structure Storage where
  nodes : List (Place × Node)
  working : Place
  deriving Repr, DecidableEq

namespace Storage

/-- What stands at a place.  The root is always a directory. -/
def node? (s : Storage) (place : Place) : Option Node :=
  if place.isEmpty then some .directory else s.nodes.lookup place

/-- A directory stands at a place. -/
def isDirectory (s : Storage) (place : Place) : Bool := s.node? place == some .directory

/-- The store with something else at a place. -/
def put (s : Storage) (place : Place) (node : Node) : Storage :=
  { s with nodes := (place, node) :: s.nodes.filter (fun entry => entry.1 != place) }

/-- A store of empty directories that lead to a working directory. -/
def atPlace : Place → Storage
  | [] => ⟨[], []⟩
  | name :: place =>
    { (atPlace place).put (name :: place) .directory with working := name :: place }

/-- A path that can be given: without a zero character, and of no more than 4095 bytes. -/
def isPath (path : Text) : Bool :=
  path.all (· != Char.ofNat 0) && decide ((Text.encode path).length ≤ 4095)

/-- A name that can be given to a file or a directory: of no more than 255 bytes. -/
def isName (name : Text) : Bool := decide ((Text.encode name).length ≤ 255)

/-- Where a piece of a path leads from a place. -/
def enter (place : Place) (piece : Text) : Place :=
  match Path.part? piece with
  | some (.name n) => n :: place
  | some .up => place.tail
  | _ => place

/-- Where the pieces of a path lead from a place.  Each piece needs a directory to start from. -/
def follow? (s : Storage) : Place → List Text → Option Place
  | place, [] => some place
  | place, piece :: rest =>
    if s.isDirectory place then s.follow? (enter place piece) rest else none

/-- Where a path leads.  Something may stand there or not. -/
def resolve? (s : Storage) (path : Text) : Option Place :=
  if path.isEmpty || !isPath path then none
  else s.follow? (if path.head? == some '/' then [] else s.working) (path.splitOn '/')

/-- What stands where a path leads. -/
def look (s : Storage) (path : Text) : Option Node := (s.resolve? path).bind s.node?

/-- A file with the given bytes where a path leads, in place of the file that stood there. -/
def write? (s : Storage) (path : Text) (bytes : List UInt8) : Option Storage :=
  match s.resolve? path with
  | some (name :: place) =>
    if s.isDirectory (name :: place) || !isName name then none
    else some (s.put (name :: place) (.file bytes))
  | _ => none

/-- The directory at a place, made if nothing stands there. -/
def makeDirectory? (s : Storage) : Place → Option Storage
  | [] => some s
  | name :: place =>
    match s.node? (name :: place) with
    | some .directory => some s
    | some _ => none
    | none => if isName name then some (s.put (name :: place) .directory) else none

/-- Where a part of a path leads from a place. -/
def placeOf (s : Storage) (place : Place) : Path.Part → Place
  | .root => []
  | .here => s.working
  | .up => place.tail
  | .name n => n :: place

/-- The directories that some parts lead to from a place, each made if it is missing.  The store
that this leaves, and whether all of them are there. -/
def makeFrom (s : Storage) : Place → List Path.Part → Storage × Bool
  | _, [] => (s, true)
  | place, part :: rest =>
    let place := placeOf s place part
    match s.makeDirectory? place with
    | some s => s.makeFrom place rest
    | none => (s, false)

/-- The directories on a path, each made if it is missing. -/
def makeDirectories (s : Storage) (path : Text) : Storage × Bool :=
  if isPath path then s.makeFrom s.working (Path.parts path) else (s, false)

end Storage
end Motion
