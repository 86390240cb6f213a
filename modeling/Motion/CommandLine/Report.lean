/-
# Reports

What the command line prints of a simulation: the program, the number of its commands, the summary
and the bounds of its tool path, on demand each segment as it becomes visible, and last what is
drawn of the visible part.
-/
import Motion.CommandLine.Console
import Motion.Simulation
import Motion.Toolpath.Strips
import Motion.Settings

namespace Motion

/-- The tool path of a simulation, ready to be shown: whole, or nothing of it. -/
def Simulation.prepared {α : Type} (s : Simulation α) (playback : PlaybackOptions) : Toolpath α :=
  if playback.startAtEnd then s.toolpath.seekEnd else s.toolpath.reset

namespace Report

/-- The line of the bounds. -/
def boundsLine : Option (Box Float) → String
  | none => "bounds:   (empty)"
  | some b =>
    s!"bounds:   X {Double.fixed 3 b.low.x}..{Double.fixed 3 b.high.x}  " ++
      s!"Y {Double.fixed 3 b.low.y}..{Double.fixed 3 b.high.y}  " ++
      s!"Z {Double.fixed 3 b.low.z}..{Double.fixed 3 b.high.z}"

/-- A number with blanks before it, at least `width` characters wide. -/
def rightAligned (width n : Nat) : String :=
  let digits := Nat.toDigits 10 n
  String.ofList (List.replicate (width - digits.length) ' ' ++ digits)

/-- The line of a segment that becomes visible. -/
def stepLine (cursor : Nat) (segment : Segment Float) : String :=
  s!"{rightAligned 6 cursor}  {segment.display}"

/-- Prints the segments from the cursor on, as they become visible one after the other, and gives
the tool path where that ends; while there are turns left. -/
def playFrom : Nat → Toolpath Float → Console (Toolpath Float)
  | 0, t => pure t
  | turns + 1, t =>
    if t.isComplete then pure t
    else do
      let t := t.advance
      if let some segment := t.current? then
        Console.print (stepLine t.cursor segment)
      playFrom turns t

/-- Prints all segments, and gives the tool path behind the last one. -/
def play (t : Toolpath Float) : Console (Toolpath Float) := playFrom t.size t.reset

/-- The line of what is visible. -/
def visibleLine (arcSegments : UInt32) (t : Toolpath Float) : String :=
  let drawn := strips arcSegments.toNat t.visible
  let vertices := drawn.flatten.length
  s!"visible:  {t.cursor}/{t.size} segments, {drawn.length} strips, {vertices} vertices"

/-- Prints the report of a simulation. -/
def print (program : Text) (steps : Bool) (playback : PlaybackOptions) (s : Simulation Float) :
    Console Unit := do
  let t := s.prepared playback
  Console.print s!"program:  {String.ofList program}"
  Console.print s!"commands: {s.commandCount}"
  Console.print s!"toolpath: {t.summary.display}"
  Console.print (boundsLine t.bounds?)
  let t ← (if steps then play t else pure t)
  Console.print (visibleLine playback.arcSegments t)

/-! ## The line of a step -/

theorem toList_rightAligned (width n : Nat) :
    (rightAligned width n).toList =
      List.replicate (width - (Nat.toDigits 10 n).length) ' ' ++ Nat.toDigits 10 n :=
  String.toList_ofList

/-- **The line of a step**: its number on the right of six places or more, two blanks, and the
segment as a listing shows it. -/
theorem toList_stepLine (n : Nat) (segment : Segment Float) :
    (stepLine n segment).toList =
      List.replicate (6 - (Nat.toDigits 10 n).length) ' ' ++ Nat.toDigits 10 n ++ [' ', ' '] ++
        segment.display.toList := by
  have hline : stepLine n segment = rightAligned 6 n ++ "  " ++ segment.display := rfl
  rw [hline, String.toList_append, String.toList_append, toList_rightAligned]
  rfl

end Report
end Motion
