/-
# Summaries measure the real travel

A summary is computed from segments alone, and a move does not say where it starts.  So the summary
walks along the segments by itself: a move starts where the segment before it ends, and the end of
an arc is a point of its circle.  The trace has walked along the commands before that, from target
to target, and at the old height behind an arc.  Rapid travel is measured rightly only where both
walks are at the same place.

They are, exactly if every arc ends where the tool is next, which in exact arithmetic means that its
target is on its circle (`endPoint_segmentFrom`).  Then the two walks agree after any number of
commands (`endAfter_segmentsFrom`), and the summary of a program is what its commands say
(`summary_is_real_travel`).
-/
import Mathlib.Algebra.BigOperators.Group.List.Basic
import Motion.Proofs.Toolpath.Joins

namespace Motion

/-! ## 1. Two walks -/

section Walks

variable {α : Type} [Scalar α]

/-- Where the last of some segments ends, or the position before them. -/
def endAfter (last : Point α) (segments : List (Segment α)) : Point α :=
  (segments.getLast?.map Segment.endPoint).getD last

theorem endAfter_cons (last : Point α) (segment : Segment α) (rest : List (Segment α)) :
    endAfter last (segment :: rest) = endAfter segment.endPoint rest := by
  cases rest <;> simp [endAfter, List.getLast?_cons]

theorem endAfter_concat (last : Point α) (segments : List (Segment α)) (segment : Segment α) :
    endAfter last (segments ++ [segment]) = segment.endPoint := by
  simp [endAfter]

/-- More segments are measured from where the others end. -/
theorem Summary.addAll_append (s : Summary α) (last : Point α)
    (segments more : List (Segment α)) :
    s.addAll last (segments ++ more) =
      (s.addAll last segments).addAll (endAfter last segments) more := by
  induction segments generalizing s last with
  | nil => rfl
  | cons first rest ih => rw [List.cons_append, addAll, ih, addAll, endAfter_cons]

/-- **One segment more** is measured from where the others end. -/
theorem Summary.addAll_concat (s : Summary α) (last : Point α) (segments : List (Segment α))
    (segment : Segment α) :
    s.addAll last (segments ++ [segment]) =
      (s.addAll last segments).add (endAfter last segments) segment := by
  rw [addAll_append, addAll, addAll]

/-- Every segment of some commands ends where its command takes the tool. -/
def EndsAtTool (start : Point α) (cs : List (Command α)) : Prop :=
  ∀ e ∈ motions cs, (e.2.segmentFrom (positionAfter start e.1)).endPoint =
    e.2.arrival (positionAfter start e.1)

theorem EndsAtTool.of_concat {start : Point α} {cs : List (Command α)} {c : Command α}
    (h : EndsAtTool start (cs ++ [c])) :
    EndsAtTool start cs ∧ (c.isMotion → (c.segmentFrom (positionAfter start cs)).endPoint =
      c.arrival (positionAfter start cs)) := by
  unfold EndsAtTool at h
  rw [motions_concat] at h
  refine ⟨fun e he => h e (List.mem_append_left _ he), fun hc => h (cs, c) ?_⟩
  rw [if_pos hc]
  exact List.mem_append_right _ (List.mem_singleton.mpr rfl)

/-- **Both walks are at the same place.** -/
theorem endAfter_segmentsFrom {start : Point α} {cs : List (Command α)}
    (h : EndsAtTool start cs) :
    endAfter start (segmentsFrom start cs) = positionAfter start cs := by
  induction cs using List.reverseRecOn with
  | nil => rfl
  | append_singleton cs c ih =>
    obtain ⟨hcs, hc⟩ := h.of_concat
    rw [segmentsFrom_concat, positionAfter_concat]
    cases hmotion : c.isMotion with
    | false =>
      rw [if_neg Bool.false_ne_true, List.append_nil, ih hcs, Command.arrival_of_not_motion hmotion]
    | true => rw [if_pos rfl, endAfter_concat, hc hmotion]

/-- **One command more** is measured from where the tool is before it. -/
theorem Summary.ofSegments_segmentsFrom_concat {cs : List (Command α)} {c : Command α}
    (h : EndsAtTool .origin cs) (hc : c.isMotion) :
    ofSegments (segmentsFrom .origin (cs ++ [c])) =
      (ofSegments (segmentsFrom .origin cs)).add (positionAfter .origin cs)
        (c.segmentFrom (positionAfter .origin cs)) := by
  rw [segmentsFrom_concat, if_pos hc, ofSegments, addAll_concat, endAfter_segmentsFrom h,
    ofSegments]

/-- A summary counts all segments. -/
theorem Summary.total_addAll (s : Summary α) (last : Point α) (segments : List (Segment α)) :
    (s.addAll last segments).total = s.total + segments.length := by
  induction segments generalizing s last with
  | nil => rfl
  | cons segment rest ih =>
    have hadd : (s.add last segment).total = s.total + 1 := by
      cases segment <;> simp only [add, total] <;> omega
    rw [addAll, ih, hadd, List.length_cons]
    omega

end Walks

/-! ## 2. Legs -/

section Legs

variable {α : Type}

/-- The motions with a code, each behind the commands before it. -/
def legs (code : Code) (cs : List (Command α)) : List (List (Command α) × Command α) :=
  (motions cs).filter fun e => e.2.code = code

theorem legs_concat {code : Code} (hcode : code.isMotion) (cs : List (Command α)) (c : Command α) :
    legs code (cs ++ [c]) = legs code cs ++ if c.code = code then [(cs, c)] else [] := by
  rw [legs, motions_concat, List.filter_append, legs]
  by_cases h : c.code = code
  · have hc : c.isMotion := by rwa [Command.isMotion, h]
    simp [hc, h]
  · cases c.isMotion <;> simp [h]

end Legs

/-! ## 3. Exact travel -/

namespace Exact

/-- The machine origin, exactly. -/
noncomputable abbrev origin : Point ℝ := @Point.origin ℝ scalar

/-- The distance in space, exactly. -/
noncomputable abbrev span (p q : Point ℝ) : ℝ := @Point.distance ℝ scalar p q

/-- The segment of a command, exactly. -/
noncomputable abbrev segmentFrom (start : Point ℝ) (c : Command ℝ) : Segment ℝ :=
  @Command.segmentFrom ℝ scalar start c

/-- The summary of some segments, exactly. -/
noncomputable abbrev summary (segments : List (Segment ℝ)) : Summary ℝ :=
  @Summary.ofSegments ℝ scalar segments

/-- The target of an arc command is as far from the centre as its start; other commands are no
concern. -/
def TargetOnCircle (start : Point ℝ) (c : Command ℝ) : Prop :=
  ∀ clockwise, c.code.travel? = some (.circular clockwise) →
    distance c.target.foot (resolve start c clockwise).center = (resolve start c clockwise).radius

/-- **A segment ends where the tool is next** if the target of an arc is on its circle. -/
theorem endPoint_segmentFrom {start : Point ℝ} {c : Command ℝ} (hc : c.isMotion)
    (h : TargetOnCircle start c) :
    @Segment.endPoint ℝ scalar (segmentFrom start c) = c.arrival start := by
  have harc {clockwise : Bool} (htravel : c.code.travel? = some (.circular clockwise)) :
      endPoint (resolve start c clockwise) = ⟨c.target.x, c.target.y, start.z⟩ := by
    rw [endPoint_resolve, pointAt_direction (h clockwise htravel)]
    rfl
  rcases c.code.motion_cases with hcode | hcode | hcode | hcode | ⟨hnone, -⟩
  · simp [segmentFrom, Command.segmentFrom, Code.number, hcode, Segment.endPoint, Command.arrival,
      Command.isMotion, Code.isMotion, Command.setsHeight]
  · simp [segmentFrom, Command.segmentFrom, Code.number, hcode, Segment.endPoint, Command.arrival,
      Command.isMotion, Code.isMotion, Command.setsHeight]
  · have htravel : c.code.travel? = some (.circular true) := by
      rw [hcode]
      rfl
    have hstop := harc htravel
    simpa [segmentFrom, Command.segmentFrom, Code.number, hcode, Command.arrival,
      Command.isMotion, Code.isMotion, Command.setsHeight] using hstop
  · have htravel : c.code.travel? = some (.circular false) := by
      rw [hcode]
      rfl
    have hstop := harc htravel
    simpa [segmentFrom, Command.segmentFrom, Code.number, hcode, Command.arrival,
      Command.isMotion, Code.isMotion, Command.setsHeight] using hstop
  · exact absurd (hnone.symm.trans hc) Bool.false_ne_true

/-- The sum of the distances from where the tool is to the targets, over the motions with a code. -/
noncomputable def travelled (code : Code) (cs : List (Command ℝ)) : ℝ :=
  ((legs code cs).map fun e => span (positionAfter origin e.1) e.2.target).sum

/-- The sum of the lengths of the arcs, over the motions with a code. -/
noncomputable def swept (clockwise : Bool) (code : Code) (cs : List (Command ℝ)) : ℝ :=
  ((legs code cs).map fun e =>
    let a := resolve (positionAfter origin e.1) e.2 clockwise
    a.radius * |a.endAngle - a.startAngle|).sum

/-- What a summary says of some commands. -/
structure Measures (s : Summary ℝ) (cs : List (Command ℝ)) : Prop where
  moves : s.moves = cs.countP fun c => c.code = .preparatory 0
  lines : s.lines = cs.countP fun c => c.code = .preparatory 1
  arcs : s.arcs = cs.countP fun c => c.code = .preparatory 2 ∨ c.code = .preparatory 3
  rapid : s.rapid = travelled (.preparatory 0) cs
  cutting : s.cutting = travelled (.preparatory 1) cs +
    (swept true (.preparatory 2) cs + swept false (.preparatory 3) cs)

theorem measures_nil : Measures (summary []) [] where
  moves := rfl
  lines := rfl
  arcs := rfl
  rapid := Nat.cast_zero
  cutting := by
    have hzero : (summary []).cutting = ((0 : ℕ) : ℝ) := rfl
    rw [hzero]
    simp [travelled, swept, legs]

theorem travelled_concat {code : Code} (hcode : code.isMotion) (cs : List (Command ℝ))
    (c : Command ℝ) :
    travelled code (cs ++ [c]) =
      travelled code cs + if c.code = code then span (positionAfter origin cs) c.target else 0 := by
  rw [travelled, legs_concat hcode, List.map_append, List.sum_append]
  split <;> simp [travelled]

theorem swept_concat (clockwise : Bool) {code : Code} (hcode : code.isMotion)
    (cs : List (Command ℝ)) (c : Command ℝ) :
    swept clockwise code (cs ++ [c]) =
      swept clockwise code cs + if c.code = code then
        @Arc.length ℝ scalar (resolve (positionAfter origin cs) c clockwise) else 0 := by
  rw [swept, legs_concat hcode, List.map_append, List.sum_append]
  split
  · simp [swept]
    rfl
  · simp [swept]

/-- **What a motion adds to a summary**, by its code: to one count, and to one length. -/
theorem add_segmentFrom (s : Summary ℝ) (p : Point ℝ) {c : Command ℝ} (hc : c.isMotion) :
    let s' := @Summary.add ℝ scalar s p (segmentFrom p c)
    (s'.moves = s.moves + if c.code = .preparatory 0 then 1 else 0) ∧
      (s'.lines = s.lines + if c.code = .preparatory 1 then 1 else 0) ∧
      (s'.arcs = s.arcs + if c.code = .preparatory 2 ∨ c.code = .preparatory 3 then 1 else 0) ∧
      (s'.rapid = s.rapid + if c.code = .preparatory 0 then span p c.target else 0) ∧
      s'.cutting = s.cutting + ((if c.code = .preparatory 1 then span p c.target else 0) +
        ((if c.code = .preparatory 2 then @Arc.length ℝ scalar (resolve p c true) else 0) +
          if c.code = .preparatory 3 then @Arc.length ℝ scalar (resolve p c false) else 0)) := by
  rcases c.code.motion_cases with hcode | hcode | hcode | hcode | ⟨hnone, -⟩
  case inr.inr.inr.inr => exact absurd (hnone.symm.trans hc) Bool.false_ne_true
  all_goals
    simp [segmentFrom, Command.segmentFrom, Summary.add, Segment.length, hcode, Code.number]

/-- **One command more.** -/
theorem Measures.concat {s : Summary ℝ} {cs : List (Command ℝ)} (h : Measures s cs)
    {c : Command ℝ} (hc : c.isMotion) :
    Measures (@Summary.add ℝ scalar s (positionAfter origin cs)
      (segmentFrom (positionAfter origin cs) c)) (cs ++ [c]) := by
  obtain ⟨hmoves, hlines, harcs, hrapid, hcutting⟩ := add_segmentFrom s (positionAfter origin cs) hc
  constructor
  · rw [hmoves, h.moves, List.countP_append, List.countP_singleton]
    simp
  · rw [hlines, h.lines, List.countP_append, List.countP_singleton]
    simp
  · rw [harcs, h.arcs, List.countP_append, List.countP_singleton]
    simp
  · rw [hrapid, h.rapid, travelled_concat rfl]
  · rw [hcutting, h.cutting, travelled_concat rfl, swept_concat true rfl, swept_concat false rfl]
    ring

/-- A command that does not move the tool is measured by nothing. -/
theorem Measures.concat_of_not_motion {s : Summary ℝ} {cs : List (Command ℝ)} (h : Measures s cs)
    {c : Command ℝ} (hc : c.isMotion = false) : Measures s (cs ++ [c]) := by
  have hne (code : Code) (hcode : code.isMotion) : c.code ≠ code := by
    rintro rfl
    exact Bool.false_ne_true (hc.symm.trans hcode)
  have hrapid := hne (.preparatory 0) rfl
  have hline := hne (.preparatory 1) rfl
  have hcw := hne (.preparatory 2) rfl
  have hccw := hne (.preparatory 3) rfl
  constructor
  · simpa [hrapid] using h.moves
  · simpa [hline] using h.lines
  · simpa [hcw, hccw] using h.arcs
  · rw [h.rapid, travelled_concat rfl, if_neg hrapid, add_zero]
  · rw [h.cutting, travelled_concat rfl, swept_concat true rfl, swept_concat false rfl,
      if_neg hline, if_neg hcw, if_neg hccw, add_zero, add_zero, add_zero]

/-- **Any number of commands**, if the targets of arcs are on their circles. -/
theorem measures_segmentsFrom {cs : List (Command ℝ)}
    (h : ∀ e ∈ motions cs, TargetOnCircle (positionAfter origin e.1) e.2) :
    Measures (summary (@segmentsFrom ℝ scalar origin cs)) cs := by
  have hends : @EndsAtTool ℝ scalar origin cs := fun e he =>
    endPoint_segmentFrom (exists_of_mem_motions he).1 (h e he)
  clear h
  induction cs using List.reverseRecOn with
  | nil => exact measures_nil
  | append_singleton cs c ih =>
    obtain ⟨hcs, -⟩ := @EndsAtTool.of_concat ℝ scalar _ _ _ hends
    cases hc : c.isMotion with
    | false =>
      rw [@segmentsFrom_concat ℝ scalar, hc, if_neg Bool.false_ne_true, List.append_nil]
      exact (ih hcs).concat_of_not_motion hc
    | true =>
      rw [summary, @Summary.ofSegments_segmentsFrom_concat ℝ scalar _ _ hcs hc]
      exact (ih hcs).concat hc

/-- **The summary of a program measures its real travel.**

Take commands, traced from the origin, such that the target of every arc is on its circle.  Rapid
travel is the sum of the distances from where the tool is before a rapid move to its target; the
length of the cuts is the sum of these distances for the lines and, for the arcs, of the radius
times the sweep.  There are as many moves, lines and arcs as commands that ask for them, and
together as many as segments. -/
theorem summary_is_real_travel (cs : List (Command ℝ))
    (h : ∀ e ∈ motions cs, TargetOnCircle (positionAfter origin e.1) e.2) :
    let trace (cs : List (Command ℝ)) := @Trace.ofCommands ℝ scalar (some origin) cs
    let t := Toolpath.ofSegments (trace cs).segments
    let s := @Toolpath.summary ℝ scalar t
    (∀ before, (trace before).position = some (positionAfter origin before)) ∧
      Measures s cs ∧ s.total = t.size := by
  intro trace t s
  have hsegments : t.segments.toList = @segmentsFrom ℝ scalar origin cs :=
    congrArg (fun u => u.segments.toList) (@Trace.ofCommands_some ℝ scalar origin cs)
  refine ⟨fun before => ?_, ?_, ?_⟩
  · exact congrArg Trace.position (@Trace.ofCommands_some ℝ scalar origin before)
  · have hmeasures := measures_segmentsFrom h
    rwa [← hsegments] at hmeasures
  · have htotal := @Summary.total_addAll ℝ scalar (@Summary.empty ℝ scalar) origin t.segments.toList
    rw [Array.length_toList] at htotal
    exact htotal.trans (Nat.zero_add _)

/-- A move to (10, 0), half a circle back to the origin with a height that arcs do not go to, and a
move of length 5. -/
theorem summary_is_real_travel_half_circle :
    let out : Command ℝ := ⟨.preparatory 0, ⟨10, 0, 0⟩, ⟨0, 0⟩, 0, 1, []⟩
    let half : Command ℝ := ⟨.preparatory 2, ⟨0, 0, 7⟩, ⟨-5, 0⟩, 0, 2, []⟩
    let off : Command ℝ := ⟨.preparatory 0, ⟨3, 4, 0⟩, ⟨0, 0⟩, 0, 3, []⟩
    let trace := @Trace.ofCommands ℝ scalar (some origin) [out, half, off]
    let s := @Toolpath.summary ℝ scalar (.ofSegments trace.segments)
    TargetOnCircle out.target half ∧ s.rapid = 10 + 5 ∧ s.moves = 2 ∧ s.arcs = 1 := by
  intro out half off trace s
  have horigin : origin = ⟨0, 0, 0⟩ := by
    have hzero : ((0 : ℕ) : ℝ) = 0 := Nat.cast_zero
    exact congrArg (fun x : ℝ => (⟨x, x, x⟩ : Point ℝ)) hzero
  have hhalf : positionAfter origin [out, half] = ⟨0, 0, 0⟩ := rfl
  have hcircle : TargetOnCircle out.target half := by
    intro clockwise _
    have hcenter : (resolve out.target half clockwise).center = ⟨5, 0⟩ :=
      congrArg₂ PlanePoint.mk (by norm_num : (10 : ℝ) + -5 = 5) (add_zero 0)
    rw [← radius_resolve, hcenter, distance_eq, distance_eq]
    norm_num [out, half, Point.foot]
  have hrapid (c : Command ℝ) (hcode : c.code = .preparatory 0) (start : Point ℝ) :
      TargetOnCircle start c := by
    intro clockwise h
    rw [hcode] at h
    cases h
  have hmotions : motions [out, half, off] = [([], out), ([out], half), ([out, half], off)] := rfl
  have hall : ∀ e ∈ motions [out, half, off], TargetOnCircle (positionAfter origin e.1) e.2 := by
    rw [hmotions]
    rintro e (_ | ⟨_, _ | ⟨_, _ | ⟨_, ⟨⟩⟩⟩⟩)
    · exact hrapid out rfl _
    · exact hcircle
    · exact hrapid off rfl _
  have hlegs : legs (.preparatory 0) [out, half, off] = [([], out), ([out, half], off)] := rfl
  have hspan (p q : Point ℝ) : span p q =
      √((p.x - q.x) * (p.x - q.x) + (p.y - q.y) * (p.y - q.y) + (p.z - q.z) * (p.z - q.z)) := rfl
  have hfirst : span origin out.target = 10 := by
    rw [hspan, horigin, Real.sqrt_eq_iff_mul_self_eq (by positivity) (by norm_num)]
    norm_num [out]
  have hsecond : span ⟨0, 0, 0⟩ off.target = 5 := by
    rw [hspan, Real.sqrt_eq_iff_mul_self_eq (by positivity) (by norm_num)]
    norm_num [off]
  obtain ⟨-, hmeasures, -⟩ := summary_is_real_travel [out, half, off] hall
  refine ⟨hcircle, hmeasures.rapid.trans ?_, hmeasures.moves, hmeasures.arcs⟩
  rw [travelled, hlegs, List.map_cons, List.map_singleton, List.sum_pair, positionAfter_nil, hfirst,
    hhalf, hsecond]

end Exact
end Motion
