/-
# Arcs run in the commanded direction

An arc has the angle of its start and that of its target, each somewhere within a half turn of angle
zero, and the second one is shifted by a turn if the arc would otherwise run the wrong way.  That
suffices: whatever the two angles are, a clockwise arc does not end at a greater angle than it
starts at, and the other way round, and the shift is by one turn (`Arc.exactEnd_bounds`).

Over doubles two things could go wrong, and this module is about them.

* The shifted angle and the sweep are both rounded.  But an angle minus a turn is at most minus a
  half turn, so it is at most the start angle, and rounding does not carry it past the start angle,
  which is a double itself.  The same argument keeps the sign of the sweep.
* An angle or a sweep could be no number.  Centres may overflow, since start and offset are finite
  and their sum need not be.  But centres are only subtracted from what is finite: so the two
  arguments of an angle are numbers, if only infinite ones.
-/
import Motion.Proofs.Number.Angle
import Motion.Proofs.Number.Exact
import Motion.Proofs.Program.Finite
import Motion.Simulation

namespace Motion

variable {α : Type} [Scalar α] {value : α → EReal} {round : EReal → EReal} {τ : ℝ}

namespace Arc

open Scalar (isNaN isFinite zero turn le)

/-! ## 1. One turn -/

/-- An end angle is the raw one, or that one a turn on in the commanded direction. -/
theorem unwind_cases (s e : α) (clockwise : Bool) :
    unwind s e clockwise = e ∨
      unwind s e clockwise = if clockwise then e - turn else e + turn := by
  unfold unwind
  cases clockwise
  · cases Scalar.lt e s <;> simp
  · cases Scalar.lt s e <;> simp

/-- The end angle without rounding, for the start angle `x` and the raw end angle `y`. -/
noncomputable def exactEnd (turn x y : ℝ) (clockwise : Bool) : ℝ :=
  if clockwise then if x < y then y - turn else y
  else if y < x then y + turn else y

/-- **At most one turn, in the commanded direction.** -/
theorem exactEnd_bounds {x y : ℝ} (hx : -τ ≤ x ∧ x ≤ τ) (hy : -τ ≤ y ∧ y ≤ τ) :
    (x - 2 * τ ≤ exactEnd (2 * τ) x y true ∧ exactEnd (2 * τ) x y true ≤ x) ∧
      (x ≤ exactEnd (2 * τ) x y false ∧ exactEnd (2 * τ) x y false ≤ x + 2 * τ) := by
  obtain ⟨hxl, hxu⟩ := hx
  obtain ⟨hyl, hyu⟩ := hy
  simp only [exactEnd, if_true, Bool.false_eq_true, if_false]
  constructor
  · split_ifs with h <;> constructor <;> linarith
  · split_ifs with h <;> constructor <;> linarith

variable (hr : Scalar.Rounding value round) (hτ : Scalar.Angles value τ)
include hr hτ

/-- **The end angle is the rounded one.** -/
theorem value_unwind {s e : α} {x y : ℝ} (hs : isNaN s = false) (he : isNaN e = false)
    (hx : value s = x) (hy : value e = y) (clockwise : Bool) :
    isNaN (unwind s e clockwise) = false ∧
      value (unwind s e clockwise) = round (exactEnd (2 * τ) x y clockwise : ℝ) := by
  have hturn := hr.isNaN_of_isFinite hτ.isFinite_turn
  have hkeep : value e = round (y : ℝ) := by rw [← hy, hr.round_value he]
  have hsub := hr.sub he hturn (Or.inr hτ.isFinite_turn)
  have hadd := hr.add he hturn (Or.inr hτ.isFinite_turn)
  rw [hy, hτ.value_turn] at hsub hadd
  have hlt : Scalar.lt s e ↔ x < y := by rw [hr.lt_iff hs he, hx, hy, EReal.coe_lt_coe_iff]
  have hgt : Scalar.lt e s ↔ y < x := by rw [hr.lt_iff he hs, hx, hy, EReal.coe_lt_coe_iff]
  unfold unwind exactEnd
  cases clockwise
  · by_cases h : y < x
    · simpa [h, hgt.mpr h] using hadd
    · simpa [h, Bool.eq_false_iff.mpr (mt hgt.mp h), he] using hkeep
  · by_cases h : x < y
    · simpa [h, hlt.mpr h] using hsub
    · simpa [h, Bool.eq_false_iff.mpr (mt hlt.mp h), he] using hkeep

/-! ## 2. The arc of a command -/

/-- The direction to a finite position is an angle, even from a centre that is infinite. -/
theorem value_direction {origin p : PlanePoint α} (hox : isNaN origin.x = false)
    (hoy : isNaN origin.y = false) (hpx : isFinite p.x) (hpy : isFinite p.y) :
    isNaN (direction origin p) = false ∧
      ∃ θ : ℝ, value (direction origin p) = θ ∧ -τ ≤ θ ∧ θ ≤ τ := by
  have hx := (hr.sub (hr.isNaN_of_isFinite hpx) hox (Or.inl hpx)).1
  have hy := (hr.sub (hr.isNaN_of_isFinite hpy) hoy (Or.inl hpy)).1
  exact ⟨hτ.isNaN_atan2 hy hx, hτ.exists_value_atan2 hy hx⟩

/-- **The arc of finite coordinates runs in the commanded direction.** -/
theorem resolve_direction {start : Point α} (hstart : start.IsFinite) {c : Command α}
    (hc : c.IsFinite) (clockwise : Bool) :
    let a := resolve start c clockwise
    (isNaN a.startAngle = false ∧ isNaN a.endAngle = false) ∧
      (if clockwise then le a.sweep zero else le zero a.sweep) ∧
      ((∀ x, round x = x) → -value turn ≤ value a.sweep ∧ value a.sweep ≤ value turn) := by
  intro a
  have hcx : isNaN a.center.x = false :=
    (hr.add (hr.isNaN_of_isFinite hstart.x) (hr.isNaN_of_isFinite hc.i) (Or.inl hstart.x)).1
  have hcy : isNaN a.center.y = false :=
    (hr.add (hr.isNaN_of_isFinite hstart.y) (hr.isNaN_of_isFinite hc.j) (Or.inl hstart.y)).1
  obtain ⟨hs, x, hx, hxτ⟩ : isNaN a.startAngle = false ∧
      ∃ θ : ℝ, value a.startAngle = θ ∧ -τ ≤ θ ∧ θ ≤ τ :=
    value_direction hr hτ hcx hcy hstart.x hstart.y
  obtain ⟨he, y, hy, hyτ⟩ :=
    value_direction hr hτ (p := c.target.foot) hcx hcy hc.target.x hc.target.y
  obtain ⟨hnan, hend⟩ : isNaN a.endAngle = false ∧
      value a.endAngle = round (exactEnd (2 * τ) x y clockwise : ℝ) :=
    value_unwind hr hτ hs he hx hy clockwise
  obtain ⟨⟨hlow, hhigh⟩, hlow', hhigh'⟩ := exactEnd_bounds hxτ hyτ
  have hfinite : isFinite a.startAngle := hr.isFinite_iff.mpr ⟨hs, x, hx⟩
  have hround : value a.startAngle = round (x : ℝ) := by rw [← hx, hr.round_value hs]
  refine ⟨⟨hs, hnan⟩, ?_, fun exact => ?_⟩
  · cases clockwise
    · refine hr.zero_le_sub hnan hfinite ?_
      rw [hround, hend]
      exact hr.monotone (EReal.coe_le_coe_iff.mpr hlow')
    · refine hr.sub_le_zero hnan hfinite ?_
      rw [hround, hend]
      exact hr.monotone (EReal.coe_le_coe_iff.mpr hhigh)
  · have hsweep : value a.sweep = (exactEnd (2 * τ) x y clockwise - x : ℝ) := by
      rw [sweep, (hr.sub hnan hs (Or.inr hfinite)).2, hend, exact, exact, hx, EReal.coe_sub]
    rw [hsweep, hτ.value_turn, ← EReal.coe_neg, EReal.coe_le_coe_iff, EReal.coe_le_coe_iff]
    cases clockwise <;> constructor <;> linarith

end Arc

/-! ## 3. The arcs of a program -/

/-- A motion command that leaves an arc is an arc command. -/
theorem Command.code_of_segmentFrom_eq_arc {start : Point α} {c : Command α} {a : Arc α}
    (hc : c.isMotion) (h : .arc a = c.segmentFrom start) :
    c.code = .preparatory (if a.clockwise then 2 else 3) ∧ a = .resolve start c a.clockwise := by
  rcases c.code.motion_cases with hcode | hcode | hcode | hcode | ⟨hmotion, -⟩
  case inr.inr.inr.inr => exact absurd (hmotion.symm.trans hc) Bool.false_ne_true
  all_goals
    simp only [Command.segmentFrom, hcode, Code.number] at h
    cases h
  · exact ⟨hcode, rfl⟩
  · exact ⟨hcode, rfl⟩

/-- The arcs that some commands leave are those of their arc commands, each from where the commands
before it have taken the tool. -/
theorem exists_of_arc_mem_segmentsFrom {start : Point α} {cs : List (Command α)} {a : Arc α}
    (h : .arc a ∈ segmentsFrom start cs) :
    ∃ before c after, cs = before ++ c :: after ∧
      c.code = .preparatory (if a.clockwise then 2 else 3) ∧
      a = .resolve (positionAfter start before) c a.clockwise := by
  obtain ⟨e, he, hsegment⟩ := List.mem_map.mp h
  obtain ⟨hmotion, after, hcs⟩ := exists_of_mem_motions he
  obtain ⟨hcode, ha⟩ := e.2.code_of_segmentFrom_eq_arc hmotion hsegment.symm
  exact ⟨e.1, e.2, after, hcs, hcode, ha⟩

/-- **Every arc of every program runs in the commanded direction**, and at most one turn.

Its two angles are numbers, and its sweep is not positive if it is clockwise and not negative if it
is counter-clockwise, after all rounding.  Its end angle is the angle of the target of its command,
or that angle shifted by one turn in the commanded direction.  Where arithmetic is exact the sweep
is at most one turn either way. -/
theorem arcs_run_as_commanded (hr : Scalar.Rounding value round) (hτ : Scalar.Angles value τ)
    (o : Options) (t : Text) {a : Arc α}
    (ha : .arc a ∈ (Simulation.ofText o t).toolpath.segments) :
    (Scalar.isNaN a.startAngle = false ∧ Scalar.isNaN a.endAngle = false) ∧
    (if a.clockwise then Scalar.le a.sweep Scalar.zero else Scalar.le Scalar.zero a.sweep) ∧
    (∃ before c after, (Program.ofText o t).commands = before ++ c :: after ∧
      c.code = .preparatory (if a.clockwise then 2 else 3) ∧
      a = .resolve (positionAfter .origin before) c a.clockwise ∧
      let raw := Arc.direction a.center c.target.foot
      (a.endAngle = raw ∨
        a.endAngle = if a.clockwise then raw - Scalar.turn else raw + Scalar.turn)) ∧
    ((∀ x, round x = x) →
      -value Scalar.turn ≤ value a.sweep ∧ value a.sweep ≤ value Scalar.turn) := by
  rw [Simulation.ofText, Simulation.ofProgram, Trace.ofCommands_some] at ha
  obtain ⟨before, c, after, hcommands, hcode, heq⟩ :=
    exists_of_arc_mem_segmentsFrom (List.mem_toArray.mp ha)
  have hfinite : ∀ c' ∈ before ++ c :: after, c'.IsFinite := by
    rw [← hcommands]
    exact fun c' hc' => isFinite_of_mem_ofText hr.isFinite_zero hc'
  have hstart : (positionAfter .origin before).IsFinite :=
    isFinite_positionAfter (Point.isFinite_origin hr.isFinite_zero)
      fun c' hc' => hfinite c' (List.mem_append_left _ hc')
  obtain ⟨hnan, hdirection, hturn⟩ :=
    Arc.resolve_direction hr hτ hstart (hfinite c (by simp)) a.clockwise
  rw [← heq] at hnan hdirection hturn
  refine ⟨hnan, hdirection, ⟨before, c, after, hcommands, hcode, heq, ?_⟩, hturn⟩
  rw [heq]
  exact Arc.unwind_cases _ _ _

/-- Half a circle from (10, 0) to the origin, clockwise: in double precision the end angle is
shifted from a half turn to a half turn back, and exactly it is as well. -/
theorem arcs_run_as_commanded_half_circle :
    (∃ a : Arc Float,
      .arc a ∈ (@Simulation.ofText Float (Double.withAtan2 Double.axisAngle) {}
        "G0 X10\nG2 X0 I-5".toList).toolpath.segments ∧
      a.endAngle = Double.halfTurn true ∧ Scalar.isNaN a.endAngle = false ∧
      Scalar.le a.sweep Scalar.zero) ∧
    ∃ a : Arc ℝ,
      .arc a ∈ (@Simulation.ofText ℝ Exact.scalar {}
        "G0 X10\nG2 X0 I-5".toList).toolpath.segments ∧
      -(2 * Real.pi) ≤ a.endAngle - a.startAngle ∧ a.endAngle - a.startAngle ≤ 2 * Real.pi := by
  constructor
  · have hmem : .arc ⟨⟨5, 0⟩, 5, 0, 0, Double.halfTurn true, true⟩ ∈
        (@Simulation.ofText Float (Double.withAtan2 Double.axisAngle) {}
          "G0 X10\nG2 X0 I-5".toList).toolpath.segments :=
      Array.mem_def.mpr (List.mem_cons_of_mem (Segment.move ⟨10, 0, 0⟩) List.mem_cons_self)
    obtain ⟨⟨-, hnan⟩, hdirection, -⟩ := @arcs_run_as_commanded Float
      (Double.withAtan2 Double.axisAngle) _ _ _ (Double.rounding_double Double.axisAngle)
      Double.angles_axisAngle {} _ _ hmem
    exact ⟨_, hmem, rfl, hnan, hdirection⟩
  · obtain ⟨m, a, hlist⟩ : ∃ m a, (@Simulation.ofText ℝ Exact.scalar {}
        "G0 X10\nG2 X0 I-5".toList).toolpath.segments.toList = [.move m, .arc a] := ⟨_, _, rfl⟩
    have hmem : .arc a ∈ (@Simulation.ofText ℝ Exact.scalar {}
        "G0 X10\nG2 X0 I-5".toList).toolpath.segments := by
      rw [Array.mem_def, hlist]
      simp
    obtain ⟨-, -, -, hturn⟩ := @arcs_run_as_commanded ℝ Exact.scalar _ _ _ Exact.rounding_exact
      Exact.angles_exact {} _ _ hmem
    obtain ⟨hlow, hhigh⟩ := hturn fun _ => rfl
    exact ⟨a, hmem, EReal.coe_le_coe_iff.mp hlow, EReal.coe_le_coe_iff.mp hhigh⟩

end Motion
