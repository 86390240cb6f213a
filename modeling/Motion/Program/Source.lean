/-
# Sources

A program file is a sequence of bytes, and its lines are found before anything is decoded: a piece
of the file ends with a line feed or with the end of the file.  A line is its piece without the line
feed and without one carriage return before it; the last line loses its carriage return too, where
a text in memory would keep it.  Each line is decoded by itself, with replacement characters for
what is no UTF-8, so bytes of another encoding in a comment cost nothing.

Reading is a visit to the lines in order (`Source.visit`).  The visitor carries a state, and it may
stop the visit; the state survives a stop and a failure of the source, and so do the warnings of
the lines that were read when a file turns out to be unreadable (`Program.ofFile`).  Its commands
do not: a program without its end is no program.
-/
import Motion.Program
import Motion.Text.Utf8

namespace Motion

/-- What reading a file finds: how large the file is, its pieces, each with the line feed that ends
it, and why there were no more of them, if not because the file ended. -/
structure Source where
  size : Nat
  pieces : List (List UInt8)
  failure : Option String
  deriving Repr, DecidableEq

/-- Why a file cannot be opened. -/
inductive SourceError where
  | missing (path : Text)
  | notAFile (path : Text)
  | unreadable (reason : String)
  deriving Repr, DecidableEq

/-- The wording of an error. -/
def SourceError.message : SourceError → String
  | missing path => s!"File does not exist: {String.ofList path}"
  | notAFile path => s!"Path is not a file: {String.ofList path}"
  | unreadable reason => reason

/-- How the bytes of a file were taken. -/
inductive Encoding where
  /-- All are UTF-8. -/
  | utf8
  /-- Some had to be replaced. -/
  | lossy
  deriving Repr, DecidableEq

/-- The name of an encoding. -/
def Encoding.name : Encoding → String
  | utf8 => "utf8"
  | lossy => "lossy"

/-- How some bytes would be taken. -/
def Encoding.ofBytes (bytes : List UInt8) : Encoding :=
  if Text.isUtf8 bytes then .utf8 else .lossy

/-- An account of the lines visited so far. -/
structure ReadStats where
  bytes : Nat
  lines : Nat
  /-- How the lines were taken. -/
  encoding : Encoding
  /-- The lines in which bytes had to be replaced. -/
  lossyLines : Nat
  fileSize : Nat
  deriving Repr, DecidableEq

namespace ReadStats

/-- The part of the file that was read, in percent; 0 of an empty file. -/
def percent {α : Type} [Scalar α] (s : ReadStats) : α :=
  if s.fileSize = 0 then Scalar.zero
  else Scalar.ofNat s.bytes / Scalar.ofNat s.fileSize * Scalar.ofNat 100

end ReadStats

namespace Source

/-- The pieces of some bytes: those that a line feed ends, with it, and the rest if there is any. -/
def piecesOf (bytes : List UInt8) : List (List UInt8) :=
  let parts := Text.cut 10 bytes
  parts.1.map (· ++ [10]) ++ if parts.2.isEmpty then [] else [parts.2]

/-- A source that gives all of its bytes. -/
def ofBytes (bytes : List UInt8) : Source := ⟨bytes.length, piecesOf bytes, none⟩

/-- The bytes of a line: its piece without the line ending. -/
def lineBytes (piece : List UInt8) : List UInt8 := Text.dropFinal 13 (Text.dropFinal 10 piece)

/-- The account with one more piece. -/
def count (s : ReadStats) (piece : List UInt8) : ReadStats :=
  let s := { s with bytes := s.bytes + piece.length, lines := s.lines + 1 }
  match Encoding.ofBytes (lineBytes piece) with
  | .utf8 => s
  | .lossy => { s with encoding := .lossy, lossyLines := s.lossyLines + 1 }

/-- A visitor: given the number of a line, its text and a state, it gives a new state and, to stop
the visit, a reason. -/
abbrev Visitor (σ : Type) := UInt32 → Text → σ → σ × Option String

/-- A visit to some pieces.  It gives the state at its end, the account, and the reason if it was
stopped. -/
def visitPieces {σ : Type} (visitor : Visitor σ) :
    ReadStats → σ → List (List UInt8) → σ × ReadStats × Option String
  | stats, s, [] => (s, stats, none)
  | stats, s, piece :: rest =>
    let stats := count stats piece
    match visitor (UInt32.ofNat stats.lines) (Text.decode (lineBytes piece)) s with
    | (s, some reason) => (s, stats, some reason)
    | (s, none) => visitPieces visitor stats s rest

/-- A visit to all lines of a source.  The first reason to stop, the visitor's or the source's, is
the outcome; without one it is the account. -/
def visit {σ : Type} (source : Source) (visitor : Visitor σ) (s : σ) :
    σ × Except String ReadStats :=
  match visitPieces visitor ⟨0, 0, .utf8, 0, source.size⟩ s source.pieces with
  | (s, _, some reason) => (s, .error reason)
  | (s, stats, none) =>
    match source.failure with
    | some reason => (s, .error s!"Failed to read line {stats.lines + 1}: {reason}")
    | none => (s, .ok stats)

end Source

/-- The program of the file at a path, given what opening it gave. -/
def Program.ofFile {α : Type} [Scalar α] (o : Options) (path : Text) :
    Except SourceError Source → Program α
  | .error e => ⟨[], [.badFile path e.message]⟩
  | .ok source =>
    match source.visit (fun line raw s => (Loader.feed o s line raw, none)) .start with
    | (s, .ok _) => s.program
    | (s, .error reason) => ⟨[], s.program.diagnostics ++ [.badFile path reason]⟩

end Motion
