/-
# What is drawn of a program without arcs

A program without arcs is drawn in strokes.  A stroke begins where the tool is when the first
straight line after a rapid move is commanded, goes to the targets of all straight lines up to the
next rapid move, and every position on it is a coordinate of the program, in every bit.

Nothing of this is plain from the drawing, which compares positions with a tolerance and would break
a strip where the comparison fails.  It fails for a position that is not finite, even with itself:
the distance is then no number.  So three facts have to meet.

* The reader lets no coordinate pass that is not finite (`Motion.Proofs.Program.Finite`).
* Each line starts where the motion before it has taken the tool, with nothing rounded in between
  (`isChain_motions`).
* The distance of a finite position from itself is zero, however large its coordinates are.

Then all lines of a run meet, the groups of `Motion.Proofs.Toolpath.Groups` are the runs between
rapid moves, and the strip of a run is its stroke.
-/
import Motion.Proofs.Program.Modal
import Motion.Proofs.Text.Words
import Motion.Proofs.Toolpath.Groups

namespace Motion

/-! ## 1. Runs of straight lines -/

variable {α : Type}

/-- The command is a rapid move. -/
def Command.isRapid (c : Command α) : Bool := c.code == .preparatory 0

/-- The command is a straight line. -/
def Command.isStraight (c : Command α) : Bool := c.code == .preparatory 1

/-- The runs of motion commands that no rapid move divides, each command behind those before it. -/
def runs (cs : List (Command α)) : List (List (List (Command α) × Command α)) :=
  ((motions cs).splitOnP fun e => e.2.isRapid).filter fun run => !run.isEmpty

/-- The way of the tool along a run: from where it is before the first command to the targets of all
of them. -/
def stroke (start : Point α) : List (List (Command α) × Command α) → List (Point α)
  | [] => []
  | e :: rest => positionAfter start e.1 :: e.2.target :: rest.map fun e => e.2.target

/-- The last motion command is what has taken the tool where it is. -/
theorem positionAfter_of_getLast?_motions (start : Point α) {cs : List (Command α)}
    {e : List (Command α) × Command α} (h : (motions cs).getLast? = some e) :
    positionAfter start cs = e.2.arrival (positionAfter start e.1) := by
  induction cs using List.reverseRecOn with
  | nil => cases h
  | append_singleton cs c ih =>
    rw [positionAfter_concat]
    cases hc : c.isMotion with
    | false =>
      rw [motions_concat, hc, if_neg Bool.false_ne_true, List.append_nil] at h
      rw [Command.arrival_of_not_motion hc, ih h]
    | true =>
      rw [motions_concat, hc, if_pos rfl, List.getLast?_concat] at h
      cases h
      rfl

/-- **Each motion starts where the one before it has taken the tool.** -/
theorem isChain_motions (start : Point α) (cs : List (Command α)) :
    (motions cs).IsChain fun e e' =>
      positionAfter start e'.1 = e.2.arrival (positionAfter start e.1) := by
  induction cs using List.reverseRecOn with
  | nil => exact List.isChain_nil
  | append_singleton cs c ih =>
    rw [motions_concat]
    split
    · refine List.isChain_append.mpr ⟨ih, List.isChain_singleton _, fun e he e' he' => ?_⟩
      obtain rfl : (cs, c) = e' := by simpa using he'
      exact positionAfter_of_getLast?_motions start he
    · rwa [List.append_nil]

/-- The motions of commands that are no arcs are rapid or straight. -/
theorem isStraight_of_mem_motions {cs : List (Command α)}
    (harcs : ∀ c ∈ cs, c.code ≠ .preparatory 2 ∧ c.code ≠ .preparatory 3)
    {e : List (Command α) × Command α} (he : e ∈ motions cs) :
    e.2.isStraight = !e.2.isRapid := by
  obtain ⟨hmotion, after, rfl⟩ := exists_of_mem_motions he
  obtain ⟨hcw, hccw⟩ := harcs e.2 (by simp)
  rcases e.2.code.motion_cases with hcode | hcode | hcode | hcode | ⟨hnone, -⟩
  · simp [Command.isStraight, Command.isRapid, hcode]
  · simp [Command.isStraight, Command.isRapid, hcode]
  · exact absurd hcode hcw
  · exact absurd hcode hccw
  · exact absurd (hnone.symm.trans hmotion) Bool.false_ne_true

/-- The commands of a run are straight lines that stand together in the program. -/
theorem of_mem_runs {cs : List (Command α)}
    (harcs : ∀ c ∈ cs, c.code ≠ .preparatory 2 ∧ c.code ≠ .preparatory 3)
    {run : List (List (Command α) × Command α)}
    (h : run ∈ (motions cs).splitOnP fun e => e.2.isRapid) :
    run <:+: motions cs ∧ ∀ e ∈ run, e.2.isStraight := by
  obtain ⟨hpart, hrapid⟩ := of_mem_splitOnP h
  refine ⟨hpart, fun e he => ?_⟩
  rw [isStraight_of_mem_motions harcs (hpart.subset he), hrapid e he]
  rfl

/-- The runs hold all straight lines. -/
theorem flatten_runs {cs : List (Command α)}
    (harcs : ∀ c ∈ cs, c.code ≠ .preparatory 2 ∧ c.code ≠ .preparatory 3) :
    (runs cs).flatten = (motions cs).filter fun e => e.2.isStraight := by
  rw [runs, List.flatten_filter_not_isEmpty, flatten_splitOnP]
  exact List.filter_congr fun e he => (isStraight_of_mem_motions harcs he).symm

/-- As many motions are straight as commands are. -/
theorem length_filter_motions (cs : List (Command α)) :
    ((motions cs).filter fun e => e.2.isStraight).length = cs.countP Command.isStraight := by
  induction cs using List.reverseRecOn with
  | nil => rfl
  | append_singleton cs c ih =>
    have hmotion : c.isStraight → c.isMotion := by
      intro h
      have hcode : c.code = .preparatory 1 := by simpa [Command.isStraight] using h
      simp [Command.isMotion, Code.isMotion, hcode]
    rw [motions_concat, List.filter_append, List.length_append, ih, List.countP_append]
    cases hc : c.isStraight with
    | false => cases c.isMotion <;> simp [hc]
    | true => simp [hc, hmotion hc]

theorem length_stroke (start : Point α) {run : List (List (Command α) × Command α)}
    (h : run ≠ []) : (stroke start run).length = run.length + 1 := by
  cases run with
  | nil => exact absurd rfl h
  | cons e rest => simp [stroke]

/-- Strokes have as many positions as their runs have lines, and one more each. -/
theorem length_flatten_strokes (start : Point α)
    {rs : List (List (List (Command α) × Command α))} (h : ∀ run ∈ rs, run ≠ []) :
    (rs.map (stroke start)).flatten.length = rs.flatten.length + rs.length := by
  induction rs with
  | nil => rfl
  | cons run rs ih =>
    have hrest := ih fun run' hrun' => h run' (List.mem_cons_of_mem run hrun')
    have hfirst := length_stroke start (h run List.mem_cons_self)
    simp only [List.map_cons, List.flatten_cons, List.length_append, List.length_cons]
    omega

/-! ## 2. The strips of runs -/

variable [Scalar α] {start : Point α} {n : Nat}

theorem isCutting_segmentFrom {c : Command α} (hc : c.isMotion) :
    (!(c.segmentFrom start).isCutting) = c.isRapid := by
  rcases c.code.motion_cases with hcode | hcode | hcode | hcode | ⟨hnone, -⟩
  case inr.inr.inr.inr => exact absurd (hnone.symm.trans hc) Bool.false_ne_true
  all_goals
    simp [Command.segmentFrom, Command.isRapid, hcode, Code.number, Segment.isCutting]

theorem segmentFrom_of_isStraight {c : Command α} (hc : c.isStraight) :
    c.segmentFrom start = .line start c.target := by
  have hcode : c.code = .preparatory 1 := by simpa [Command.isStraight] using hc
  simp [Command.segmentFrom, hcode, Code.number]

omit [Scalar α] in
theorem arrival_of_isStraight {c : Command α} (hc : c.isStraight) :
    c.arrival start = c.target := by
  have hcode : c.code = .preparatory 1 := by simpa [Command.isStraight] using hc
  simp [Command.arrival, Command.isMotion, Code.isMotion, Command.setsHeight, hcode]

/-- The strip of a run is its stroke. -/
theorem joined_map_segmentFrom {run : List (List (Command α) × Command α)}
    (h : ∀ e ∈ run, e.2.isStraight) :
    joined n (run.map fun e => e.2.segmentFrom (positionAfter start e.1)) = stroke start run := by
  cases run with
  | nil => rfl
  | cons e rest =>
    have hrest : ∀ l : List (List (Command α) × Command α), (∀ e ∈ l, e.2.isStraight) →
        ((l.map fun e => e.2.segmentFrom (positionAfter start e.1)).flatMap fun s =>
          (s.vertices n).tail) = l.map fun e => e.2.target := by
      intro l hl
      induction l with
      | nil => rfl
      | cons e l ih =>
        have hl' := ih fun e' he' => hl e' (List.mem_cons_of_mem e he')
        rw [List.map_cons, List.flatMap_cons, hl',
          segmentFrom_of_isStraight (hl e List.mem_cons_self)]
        rfl
    rw [List.map_cons, joined, hrest rest fun e' he' => h e' (List.mem_cons_of_mem e he'),
      segmentFrom_of_isStraight (h e List.mem_cons_self)]
    rfl

/-- All lines of a run meet, if every target is within reach of itself. -/
theorem isChain_meets {cs : List (Command α)}
    (harcs : ∀ c ∈ cs, c.code ≠ .preparatory 2 ∧ c.code ≠ .preparatory 3)
    (hreach : ∀ c ∈ cs, Scalar.le (c.target.distance c.target) Drawing.joinDistance)
    {run : List (List (Command α) × Command α)}
    (hrun : run ∈ (motions cs).splitOnP fun e => e.2.isRapid) :
    (run.map fun e => e.2.segmentFrom (positionAfter start e.1)).IsChain
      fun s t => s.meets n t := by
  obtain ⟨hpart, hstraight⟩ := of_mem_runs harcs hrun
  have hchain := List.IsChain.infix (isChain_motions start cs) hpart
  refine (List.isChain_map _).mpr (hchain.imp_of_mem_imp fun e e' he he' hnext => ?_)
  obtain ⟨-, after, hcs⟩ := exists_of_mem_motions (hpart.subset he)
  have hstraight' := hstraight e he
  rw [segmentFrom_of_isStraight hstraight', segmentFrom_of_isStraight (hstraight e' he'), hnext,
    arrival_of_isStraight hstraight']
  exact hreach e.2 (by simp [hcs])

/-- **The groups of a program without arcs are its runs**, if every target is within reach of
itself. -/
theorem groups_segmentsFrom {cs : List (Command α)}
    (harcs : ∀ c ∈ cs, c.code ≠ .preparatory 2 ∧ c.code ≠ .preparatory 3)
    (hreach : ∀ c ∈ cs, Scalar.le (c.target.distance c.target) Drawing.joinDistance) :
    groups n (segmentsFrom start cs) =
      (runs cs).map (List.map fun e => e.2.segmentFrom (positionAfter start e.1)) := by
  set segment := fun e : List (Command α) × Command α =>
    e.2.segmentFrom (positionAfter start e.1) with hsegment
  have hsplit : (segmentsFrom start cs).splitOnP (fun s => !s.isCutting) =
      ((motions cs).splitOnP fun e => e.2.isRapid).map (List.map segment) :=
    splitOnP_map fun e he => isCutting_segmentFrom (exists_of_mem_motions he).1
  -- a run that is not empty is one group
  have hrun : ∀ run ∈ (motions cs).splitOnP fun e => e.2.isRapid,
      (run.map segment).splitBy (Segment.meets n) =
        if run.isEmpty then [] else [run.map segment] := by
    intro run hmem
    have hmeets : (run.map segment).IsChain fun s t => s.meets n t :=
      isChain_meets harcs hreach hmem
    cases run with
    | nil => rfl
    | cons e rest => exact List.splitBy_of_isChain (by simp) hmeets
  rw [groups, hsplit, List.flatMap_map, runs]
  generalize (motions cs).splitOnP (fun e => e.2.isRapid) = pieces at hrun
  induction pieces with
  | nil => rfl
  | cons run pieces ih =>
    have hrest := ih fun run' hrun' => hrun run' (List.mem_cons_of_mem run hrun')
    rw [List.flatMap_cons, hrest, hrun run List.mem_cons_self]
    cases run <;> rfl

/-! ## 3. Programs -/

theorem le_zero_joinDistance : Scalar.le (Scalar.zero : Float) Drawing.joinDistance := by
  decide +kernel

/-- **A program without arcs is drawn in strokes**, one for each run of straight lines that no rapid
move divides, whatever else stands between them.  A stroke starts where the tool is before the run
and goes to the targets of the run, in every bit as they are read.  So there are as many vertices as
lines and strips together. -/
theorem strips_of_straight_program (o : Options) (t : Text) (n : Nat)
    (harcs : ∀ c ∈ (Program.ofText o t : Program Float).commands,
      c.code ≠ .preparatory 2 ∧ c.code ≠ .preparatory 3) :
    let cs := (Program.ofText o t : Program Float).commands
    let drawn := strips n (Simulation.ofText o t : Simulation Float).toolpath.segments.toList
    drawn = (runs cs).map (stroke .origin) ∧
    (runs cs).flatten = (motions cs).filter (fun e => e.2.code == .preparatory 1) ∧
    drawn.flatten.length = cs.countP (fun c => c.code == .preparatory 1) + drawn.length := by
  intro cs drawn
  have hreach : ∀ c ∈ cs, Scalar.le (c.target.distance c.target) Drawing.joinDistance := by
    intro c hc
    rw [Point.distance_self (isFinite_of_mem_ofText Double.isFinite_zero hc).target]
    exact le_zero_joinDistance
  have hsegments : (Simulation.ofText o t : Simulation Float).toolpath.segments.toList =
      segmentsFrom .origin cs := congrArg Array.toList (Simulation.segments_ofText o t)
  have hdrawn : drawn = (runs cs).map (stroke .origin) := by
    have hgroups := strips_eq_map_joined n (segmentsFrom .origin cs)
    rw [groups_segmentsFrom harcs hreach, List.map_map] at hgroups
    rw [show drawn = strips n (segmentsFrom .origin cs) from congrArg (strips n) hsegments, hgroups]
    refine List.map_congr_left fun run hrun => ?_
    exact joined_map_segmentFrom (of_mem_runs harcs (List.mem_of_mem_filter hrun)).2
  have hne : ∀ run ∈ runs cs, run ≠ [] := by
    intro run hrun hnil
    simp [runs, hnil] at hrun
  refine ⟨hdrawn, flatten_runs harcs, ?_⟩
  rw [hdrawn, length_flatten_strokes .origin hne, flatten_runs harcs, length_filter_motions,
    List.length_map]
  rfl

/-- Two strokes: the spindle command in the middle of the first divides nothing, and the rapid move
divides. -/
theorem strips_of_straight_program_two_strokes :
    let t := "G0 X1\nG1 X2\nM3\nG1 Y5\nG0 X0\nG1 X3".toList
    let cs := (Program.ofText ⟨.modal, ';'⟩ t : Program Float).commands
    (∀ c ∈ cs, c.code ≠ .preparatory 2 ∧ c.code ≠ .preparatory 3) ∧
    (runs cs).map List.length = [2, 1] ∧
    strips 16 (Simulation.ofText ⟨.modal, ';'⟩ t : Simulation Float).toolpath.segments.toList =
      [[⟨1, 0, 0⟩, ⟨2, 0, 0⟩, ⟨2, 5, 0⟩], [⟨0, 5, 0⟩, ⟨3, 5, 0⟩]] := by
  intro t cs
  have hcs : cs =
      [⟨.preparatory 0, ⟨1, 0, 0⟩, ⟨0, 0⟩, 0, 1, "G0 X1".toList⟩,
       ⟨.preparatory 1, ⟨2, 0, 0⟩, ⟨0, 0⟩, 0, 2, "G1 X2".toList⟩,
       ⟨.miscellaneous 3, ⟨2, 0, 0⟩, ⟨0, 0⟩, 0, 3, "M3".toList⟩,
       ⟨.preparatory 1, ⟨2, 5, 0⟩, ⟨0, 0⟩, 0, 4, "G1 Y5".toList⟩,
       ⟨.preparatory 0, ⟨0, 5, 0⟩, ⟨0, 0⟩, 0, 5, "G0 X0".toList⟩,
       ⟨.preparatory 1, ⟨3, 5, 0⟩, ⟨0, 0⟩, 0, 6, "G1 X3".toList⟩] := rfl
  have harcs : ∀ c ∈ cs, c.code ≠ .preparatory 2 ∧ c.code ≠ .preparatory 3 := by
    rw [hcs]
    simp
  obtain ⟨hdrawn, -⟩ := strips_of_straight_program ⟨.modal, ';'⟩ t 16 harcs
  change _ = (runs cs).map (stroke .origin) at hdrawn
  rw [hdrawn, hcs]
  exact ⟨hcs ▸ harcs, rfl, rfl⟩

end Motion
