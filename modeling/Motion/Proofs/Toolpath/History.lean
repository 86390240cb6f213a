/-
# The trace of some commands, from their history

`Trace.ofCommands` threads a position along the commands.  This module says what comes out without
threading anything: where the tool is after some commands is found by searching them backwards
(`positionAfter`).

| coordinate | is that of the target of        | or, if there is none, of |
|------------|---------------------------------|--------------------------|
| X and Y    | the last motion command         | the start                |
| Z          | the last `G0` or `G1`           | the start                |

So the height of an arc and the coordinates of anything that does not move the tool are never where
the tool is.  Every motion command leaves one segment, of the kind that its code says, from the
position that its own history gives (`segmentsFrom`), and nothing else leaves one.  `Command.Leaves`
says what that segment is, field by field.  That is the trace from a known position;
`ofCommands_eq_history` states it together with what changes where the position is unknown at first.
-/
import Mathlib.Data.List.Forall2
import Mathlib.Data.List.Induction
import Mathlib.Data.List.TakeWhile
import Mathlib.Tactic.SplitIfs
import Motion.Proofs.Number.Angle
import Motion.Simulation

namespace Motion

variable {α : Type}

/-! ## 1. What the history says -/

/-- A code is one of the four motion codes, or it commands no motion. -/
theorem Code.motion_cases (c : Code) :
    c = .preparatory 0 ∨ c = .preparatory 1 ∨ c = .preparatory 2 ∨ c = .preparatory 3 ∨
      c.isMotion = false ∧ c.travel? = none := by
  cases hmotion : c.isMotion with
  | false =>
    have htravel := Code.isSome_travel? c
    rw [hmotion, Option.isSome_eq_false_iff, Option.isNone_iff_eq_none] at htravel
    simp [htravel]
  | true =>
    cases c with
    | modifier => simp [Code.isMotion] at hmotion
    | miscellaneous n => simp [Code.isMotion] at hmotion
    | preparatory n =>
      simp only [Code.isMotion, Bool.and_eq_true, decide_eq_true_eq] at hmotion
      have hn : n = 0 ∨ n = 1 ∨ n = 2 ∨ n = 3 := by omega
      rcases hn with rfl | rfl | rfl | rfl <;> simp

/-- The command takes the tool to the height of its target: `G0` and `G1` do. -/
def Command.setsHeight (c : Command α) : Bool :=
  c.code == .preparatory 0 || c.code == .preparatory 1

/-- Where the tool is after some commands that it starts at a position. -/
def positionAfter (start : Point α) (cs : List (Command α)) : Point α where
  x := ((cs.reverse.find? Command.isMotion).map (·.target.x)).getD start.x
  y := ((cs.reverse.find? Command.isMotion).map (·.target.y)).getD start.y
  z := ((cs.reverse.find? Command.setsHeight).map (·.target.z)).getD start.z

/-- The motion commands, each behind the commands before it. -/
def motions (cs : List (Command α)) : List (List (Command α) × Command α) :=
  (cs.zipIdx.map fun e => (cs.take e.2, e.1)).filter fun e => e.2.isMotion

/-- Where one command takes the tool. -/
def Command.arrival (start : Point α) (c : Command α) : Point α where
  x := if c.isMotion then c.target.x else start.x
  y := if c.isMotion then c.target.y else start.y
  z := if c.setsHeight then c.target.z else start.z

@[simp] theorem positionAfter_nil (start : Point α) : positionAfter start [] = start := rfl

theorem positionAfter_concat (start : Point α) (cs : List (Command α)) (c : Command α) :
    positionAfter start (cs ++ [c]) = c.arrival (positionAfter start cs) := by
  cases hm : c.isMotion <;> cases hz : c.setsHeight <;>
    simp [positionAfter, Command.arrival, hm, hz]

@[simp] theorem motions_nil : motions ([] : List (Command α)) = [] := rfl

/-- One more command adds itself, if it moves the tool, behind all others. -/
theorem motions_concat (cs : List (Command α)) (c : Command α) :
    motions (cs ++ [c]) = motions cs ++ if c.isMotion then [(cs, c)] else [] := by
  have htake : ∀ e ∈ cs.zipIdx, ((cs ++ [c]).take e.2, e.1) = (cs.take e.2, e.1) := by
    intro e he
    have hlt : e.2 < cs.length := by simpa using List.snd_lt_of_mem_zipIdx he
    rw [List.take_append_of_le_length (Nat.le_of_lt hlt)]
  rw [motions, List.zipIdx_append, List.map_append, List.filter_append, List.map_congr_left htake]
  simp [motions, List.filter_cons]

/-- A motion command of the list stands behind those that it is given with. -/
theorem exists_of_mem_motions {cs : List (Command α)} {e : List (Command α) × Command α}
    (h : e ∈ motions cs) : e.2.isMotion ∧ ∃ after, cs = e.1 ++ e.2 :: after := by
  induction cs using List.reverseRecOn with
  | nil => cases h
  | append_singleton cs c ih =>
    rw [motions_concat, List.mem_append] at h
    rcases h with h | h
    · obtain ⟨hmotion, after, rfl⟩ := ih h
      exact ⟨hmotion, after ++ [c], by simp⟩
    · split at h
      · obtain rfl := List.mem_singleton.mp h
        exact ⟨‹_›, [], rfl⟩
      · cases h

/-- A command that does not move the tool leaves it where it is. -/
theorem Command.arrival_of_not_motion {c : Command α} (h : c.isMotion = false) (start : Point α) :
    c.arrival start = start := by
  have hheight : c.setsHeight = false := by
    rw [Command.setsHeight, Bool.or_eq_false_iff, beq_eq_false_iff_ne, beq_eq_false_iff_ne]
    constructor <;> rintro hcode <;> simp [Command.isMotion, Code.isMotion, hcode] at h
  simp [Command.arrival, h, hheight]

/-- Where an arc at the height of its target takes the tool is its target, as with other motions. -/
theorem Command.arrival_at_height {c : Command α} (h : c.isMotion = true) (x y : α) :
    c.arrival ⟨x, y, c.target.z⟩ = c.target := by
  simp [Command.arrival, h]

variable [Scalar α]

/-- The segment of a motion command that starts at a position. -/
def Command.segmentFrom (start : Point α) (c : Command α) : Segment α :=
  match c.code.number with
  | 0 => .move c.target
  | 1 => .line start c.target
  | 2 => .arc (.resolve start c true)
  | _ => .arc (.resolve start c false)

/-- The segments of some commands, each from where the commands before it have taken the tool. -/
def segmentsFrom (start : Point α) (cs : List (Command α)) : List (Segment α) :=
  (motions cs).map fun e => e.2.segmentFrom (positionAfter start e.1)

theorem segmentsFrom_concat (start : Point α) (cs : List (Command α)) (c : Command α) :
    segmentsFrom start (cs ++ [c]) =
      segmentsFrom start cs ++
        if c.isMotion then [c.segmentFrom (positionAfter start cs)] else [] := by
  rw [segmentsFrom, motions_concat]
  cases c.isMotion <;> simp [segmentsFrom]

/-- The arc of a command that starts at a position, field by field.  Its centre and its height are
seen from that position, its angles from its centre; the end angle is shifted by one turn where the
way to it would have the wrong direction. -/
structure Command.LeavesArc (start : Point α) (c : Command α) (a : Arc α) : Prop where
  center : a.center = ⟨start.x + c.offset.x, start.y + c.offset.y⟩
  radius : a.radius = Scalar.hypot (start.x - a.center.x) (start.y - a.center.y)
  z : a.z = start.z
  startAngle : a.startAngle = Scalar.atan2 (start.y - a.center.y) (start.x - a.center.x)
  endAngle :
    let raw := Scalar.atan2 (c.target.y - a.center.y) (c.target.x - a.center.x)
    a.endAngle = if a.clockwise then
      if Scalar.lt a.startAngle raw then raw - Scalar.turn else raw
    else if Scalar.lt raw a.startAngle then raw + Scalar.turn else raw

/-- What a motion command leaves that starts at a position. -/
inductive Command.Leaves (start : Point α) (c : Command α) : Segment α → Prop where
  | rapid (hcode : c.code = .preparatory 0) : Leaves start c (.move c.target)
  | straight (hcode : c.code = .preparatory 1) : Leaves start c (.line start c.target)
  | clockwise (hcode : c.code = .preparatory 2) {a : Arc α} (ha : c.LeavesArc start a)
      (hclockwise : a.clockwise = true) : Leaves start c (.arc a)
  | counterclockwise (hcode : c.code = .preparatory 3) {a : Arc α} (ha : c.LeavesArc start a)
      (hclockwise : a.clockwise = false) : Leaves start c (.arc a)

theorem Command.leavesArc_resolve (start : Point α) (c : Command α) (clockwise : Bool) :
    c.LeavesArc start (.resolve start c clockwise) where
  center := rfl
  radius := rfl
  z := rfl
  startAngle := rfl
  endAngle := by
    intro raw
    cases clockwise <;> simp [Arc.resolve, Arc.unwind, Arc.direction, Point.foot, raw]

theorem Command.leaves_segmentFrom {c : Command α} (h : c.isMotion = true) (start : Point α) :
    c.Leaves start (c.segmentFrom start) := by
  rcases c.code.motion_cases with hcode | hcode | hcode | hcode | ⟨hmotion, -⟩
  case inr.inr.inr.inr => exact absurd h (by rw [Command.isMotion, hmotion]; simp)
  all_goals simp only [segmentFrom, hcode, Code.number]
  · exact .rapid hcode
  · exact .straight hcode
  · exact .clockwise hcode (c.leavesArc_resolve start true) rfl
  · exact .counterclockwise hcode (c.leavesArc_resolve start false) rfl

/-- **Every motion command leaves its segment**, from where those before it have taken the tool. -/
theorem forall₂_leaves (start : Point α) (cs : List (Command α)) :
    List.Forall₂ (fun e s => e.2.Leaves (positionAfter start e.1) s) (motions cs)
      (segmentsFrom start cs) := by
  rw [segmentsFrom, List.forall₂_map_right_iff, List.forall₂_same]
  intro e he
  exact Command.leaves_segmentFrom (exists_of_mem_motions he).1 _

/-! ## 2. One step -/

theorem step_of_not_motion {c : Command α} (h : c.isMotion = false) (position : Option (Point α)) :
    step position c = (position, none) := by
  have htravel : c.code.travel? = none := by
    rw [← Option.isNone_iff_eq_none, ← Option.isSome_eq_false_iff, Code.isSome_travel?]
    exact h
  simp [step, htravel]

/-- **One step from a known position**: one segment for a motion command, none for any other, and
the tool is where the command takes it. -/
theorem step_some (start : Point α) (c : Command α) :
    step (some start) c =
      (some (c.arrival start), if c.isMotion then some (c.segmentFrom start) else none) := by
  rcases c.code.motion_cases with hcode | hcode | hcode | hcode | ⟨hmotion, -⟩
  case inr.inr.inr.inr =>
    have hmotion : c.isMotion = false := hmotion
    simp [step_of_not_motion hmotion, Command.arrival_of_not_motion hmotion, hmotion]
  all_goals
    simp [step, hcode, Code.travel?, Command.arrival, Command.isMotion, Code.isMotion,
      Command.setsHeight, Command.segmentFrom, Code.number]

/-- **One step from an unknown position**: only a rapid move leaves its segment, and after any
motion command the tool is at the whole target. -/
theorem step_none {c : Command α} (h : c.isMotion = true) :
    step none c =
      (some c.target, if c.code = .preparatory 0 then some (.move c.target) else none) := by
  rcases c.code.motion_cases with hcode | hcode | hcode | hcode | ⟨hmotion, -⟩
  case inr.inr.inr.inr => exact absurd h (by rw [Command.isMotion, hmotion]; simp)
  all_goals simp [step, hcode, Code.travel?]

/-! ## 3. Whole traces -/

namespace Trace

theorem feed_eq (t : Trace α) (c : Command α) :
    t.feed c = ⟨(step t.position c).1, t.segments ++ (step t.position c).2.toArray⟩ := by
  unfold feed
  rcases step t.position c with ⟨position, segment⟩
  cases segment <;> simp

theorem ofCommands_concat (position : Option (Point α)) (cs : List (Command α)) (c : Command α) :
    ofCommands position (cs ++ [c]) = (ofCommands position cs).feed c := by
  simp [ofCommands]

/-- **The trace of two lists of commands.**  The second list is traced from where the first one
leaves the tool, known or not, and its segments follow. -/
theorem ofCommands_append (position : Option (Point α)) (cs cs' : List (Command α)) :
    ofCommands position (cs ++ cs') =
      ⟨(ofCommands (ofCommands position cs).position cs').position,
        (ofCommands position cs).segments ++
          (ofCommands (ofCommands position cs).position cs').segments⟩ := by
  induction cs' using List.reverseRecOn with
  | nil => simp [ofCommands, start]
  | append_singleton cs' c ih =>
    rw [← List.append_assoc, ofCommands_concat, ih, ofCommands_concat, feed_eq, feed_eq]
    simp only [Array.append_assoc]

/-- **The trace from a known position is what the history says.** -/
theorem ofCommands_some (p : Point α) (cs : List (Command α)) :
    ofCommands (some p) cs = ⟨some (positionAfter p cs), (segmentsFrom p cs).toArray⟩ := by
  induction cs using List.reverseRecOn with
  | nil => rfl
  | append_singleton cs c ih =>
    rw [ofCommands_concat, ih, feed_eq, step_some, positionAfter_concat, segmentsFrom_concat]
    cases c.isMotion <;> simp

/-- Commands that do not move the tool leave everything as it is. -/
theorem ofCommands_of_not_motion {cs : List (Command α)} (h : ∀ c ∈ cs, c.isMotion = false)
    (position : Option (Point α)) : ofCommands position cs = start position := by
  induction cs with
  | nil => rfl
  | cons c rest ih =>
    have hc : step position c = (position, none) := step_of_not_motion (h c (by simp)) position
    have hfeed : (start position).feed c = start position := by simp [start, feed, hc]
    rw [ofCommands, List.foldl_cons, hfeed]
    exact ih fun c' hc' => h c' (List.mem_cons_of_mem _ hc')

/-- The segment of the first command comes first, and the rest is traced from where it leaves the
tool. -/
theorem ofCommands_cons (position : Option (Point α)) (c : Command α) (after : List (Command α)) :
    ofCommands position (c :: after) =
      ⟨(ofCommands (step position c).1 after).position,
        (step position c).2.toArray ++ (ofCommands (step position c).1 after).segments⟩ := by
  have hone : ofCommands position [c] = ⟨(step position c).1, (step position c).2.toArray⟩ := by
    simp [ofCommands, feed_eq, start]
  rw [← List.singleton_append, ofCommands_append, hone]

/-- The trace before the first motion command is idle. -/
theorem ofCommands_first_motion {before : List (Command α)}
    (h : ∀ c ∈ before, c.isMotion = false) (position : Option (Point α)) (c : Command α)
    (after : List (Command α)) :
    ofCommands position (before ++ c :: after) =
      ⟨(ofCommands (step position c).1 after).position,
        (step position c).2.toArray ++ (ofCommands (step position c).1 after).segments⟩ := by
  rw [ofCommands_append, ofCommands_of_not_motion h, start, ofCommands_cons]
  simp

end Trace

/-- The segments of a text, from the history of its commands. -/
theorem Simulation.segments_ofText (o : Options) (t : Text) :
    (ofText o t : Simulation α).toolpath.segments =
      (segmentsFrom .origin (Program.ofText o t).commands).toArray := by
  rw [ofText, ofProgram, Trace.ofCommands_some]
  rfl

/-! ## 4. The closed form -/

/-- The history of a first motion command: its segment comes first, and the rest is as if it had
started where that command takes the tool. -/
theorem history_first_motion {before : List (Command α)} (h : ∀ c ∈ before, c.isMotion = false)
    {c : Command α} (hc : c.isMotion = true) (start : Point α) (after : List (Command α)) :
    positionAfter start (before ++ c :: after) = positionAfter (c.arrival start) after ∧
      segmentsFrom start (before ++ c :: after) =
        c.segmentFrom start :: segmentsFrom (c.arrival start) after := by
  have htrace := Trace.ofCommands_first_motion h (some start) c after
  rw [step_some, if_pos hc, Trace.ofCommands_some, Trace.ofCommands_some] at htrace
  simpa using htrace

/-- What is kept of the segment of a first motion command that starts at an unknown position. -/
def Command.keptSegment (c : Command α) : List (Segment α) :=
  if c.code = .preparatory 0 then [.move c.target] else []

theorem Trace.ofCommands_none {before : List (Command α)} (h : ∀ c ∈ before, c.isMotion = false)
    {c : Command α} (hc : c.isMotion = true) (after : List (Command α)) :
    ofCommands none (before ++ c :: after) =
      ⟨some (positionAfter c.target after),
        (c.keptSegment ++ segmentsFrom c.target after).toArray⟩ := by
  rw [ofCommands_first_motion h, step_none hc, ofCommands_some]
  by_cases hcode : c.code = .preparatory 0 <;> simp [Command.keptSegment, hcode]

/-- **The trace of any commands, from their history.**

From a known position, the tool is where the history says, and the segments are those of the motion
commands, one each and in order: a rapid move, a line, or a clockwise or counter-clockwise arc, as
the code says, from the position that the history gives.

From an unknown position, everything begins with the first motion command.  Its segment is left out
unless it is a rapid move, and the rest is traced from its whole target.  That is the trace from any
position at the height of that target, less the one segment.  Without a motion command the position
stays unknown. -/
theorem ofCommands_eq_history (cs : List (Command α)) :
    (∀ p, Trace.ofCommands (some p) cs =
        ⟨some (positionAfter p cs), (segmentsFrom p cs).toArray⟩ ∧
      List.Forall₂ (fun e s => e.2.Leaves (positionAfter p e.1) s) (motions cs)
        (segmentsFrom p cs)) ∧
    (match cs.dropWhile (fun c => !c.isMotion) with
      | [] => Trace.ofCommands none cs = ⟨none, #[]⟩
      | c :: after =>
        Trace.ofCommands none cs =
            ⟨some (positionAfter c.target after),
              (c.keptSegment ++ segmentsFrom c.target after).toArray⟩ ∧
          ∀ x y, Trace.ofCommands none cs =
            ⟨some (positionAfter ⟨x, y, c.target.z⟩ cs),
              (c.keptSegment ++ (segmentsFrom ⟨x, y, c.target.z⟩ cs).tail).toArray⟩) ∧
    ((Trace.ofCommands none cs).position = none ↔ ∀ c ∈ cs, c.isMotion = false) := by
  refine ⟨fun p => ⟨Trace.ofCommands_some p cs, forall₂_leaves p cs⟩, ?_⟩
  have hsplit := cs.takeWhile_append_dropWhile (p := fun c => !c.isMotion)
  have hbefore : ∀ c ∈ cs.takeWhile (fun c => !c.isMotion), c.isMotion = false := by
    intro c hc
    simpa using List.mem_takeWhile_imp hc
  cases hrest : cs.dropWhile (fun c => !c.isMotion) with
  | nil =>
    rw [hrest, List.append_nil] at hsplit
    rw [hsplit] at hbefore
    rw [Trace.ofCommands_of_not_motion hbefore]
    exact ⟨rfl, iff_of_true rfl hbefore⟩
  | cons c after =>
    have hmotion : c.isMotion = true := by
      have hhead := List.head?_dropWhile_not (fun c : Command α => !c.isMotion) cs
      simpa [hrest] using hhead
    rw [hrest] at hsplit
    have hnone : Trace.ofCommands none cs = ⟨some (positionAfter c.target after),
        (c.keptSegment ++ segmentsFrom c.target after).toArray⟩ := by
      rw [← hsplit]
      exact Trace.ofCommands_none hbefore hmotion after
    refine ⟨⟨hnone, fun x y => ?_⟩, ?_⟩
    · have hhistory := history_first_motion hbefore hmotion ⟨x, y, c.target.z⟩ after
      rw [hsplit, Command.arrival_at_height hmotion] at hhistory
      rw [hnone, hhistory.1, hhistory.2, List.tail_cons]
    · rw [hnone]
      refine iff_of_false (by simp) fun hall => ?_
      have hmem : c ∈ cs := by rw [← hsplit]; simp
      simp [hall c hmem] at hmotion

/-- Half a turn forth and half a turn back about the origin, with a pause: the height of the start
is kept, whatever the arcs and the pause say. -/
theorem ofCommands_eq_history_two_arcs :
    let scalar := Double.withAtan2 Double.axisAngle
    let half (n : Int) (x i : Float) : Command Float :=
      ⟨.preparatory n, ⟨x, 0, 5⟩, ⟨i, 0⟩, 0, 1, []⟩
    let pause : Command Float := ⟨.miscellaneous 5, ⟨9, 9, 9⟩, ⟨0, 0⟩, 0, 2, []⟩
    let pi := Double.halfTurn false
    @Trace.ofCommands Float scalar (some ⟨1, 0, 7⟩) [half 2 (-1) (-1), pause, half 3 1 1] =
      ⟨some ⟨1, 0, 7⟩,
        #[.arc ⟨⟨0, 0⟩, 1, 7, 0, -pi, true⟩, .arc ⟨⟨0, 0⟩, 1, 7, pi, pi + pi, false⟩]⟩ := by
  intro scalar half pause pi
  have htrace := (@ofCommands_eq_history Float scalar
    [half 2 (-1) (-1), pause, half 3 1 1]).1 ⟨1, 0, 7⟩
  rw [htrace.1]
  decide +kernel

end Motion
