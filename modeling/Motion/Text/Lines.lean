/-
# Lines

A line ends at its line feed; what follows the last line feed is a last line of its own unless it
is empty.  `cut` finds the line feeds, on characters and on bytes alike.  The two uses differ in
one point: on characters, a carriage return belongs to the line ending only when a line feed
follows it (`lines`); a reader of bytes drops one at the end of its last line too, as
`Motion.Program.Source` does.  Lines are written with `unlines`.
-/
import Motion.Text.Blank

namespace Motion.Text

/-- The pieces of a sequence that a line feed ends, without it, and the rest after the last one. -/
def cut {α : Type} [BEq α] (feed : α) (l : List α) : List (List α) × List α :=
  let pieces := l.splitOn feed
  (pieces.dropLast, pieces.getLastD [])

/-- A sequence without its last element, if that is the given one. -/
def dropFinal {α : Type} [BEq α] (a : α) (l : List α) : List α :=
  if l.getLast? == some a then l.dropLast else l

/-- The lines of a text, without their line endings: a line feed, or a carriage return and a line
feed.  Nothing follows a final line feed. -/
def lines (t : Text) : List Text :=
  let pieces := cut '\n' t
  pieces.1.map (dropFinal '\r') ++ if pieces.2.isEmpty then [] else [pieces.2]

/-- Lines, each with a line feed behind it. -/
def unlines (ls : List Text) : Text := ls.flatMap (· ++ ['\n'])

end Motion.Text
