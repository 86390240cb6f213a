/-
# What a report says

A report with steps plays the tool path: it starts over, advances the cursor, and prints the segment
behind it, until all are visible.  The loop is given as many turns as there are segments.  They are
as many as it takes, whatever was visible before (`run_play`), so the loop ends by itself and more
turns would change nothing (`play_ends`).

So a report is a closed form of the segments: `Report.whole` writes it down without a cursor, text
by text, and every text of it is one line but the first, which shows the path of the program as it
is.
-/
import Motion.Proofs.CommandLine.Listing

namespace Motion

/-! ## 1. Playing -/

namespace Toolpath

variable {α : Type} {t : Toolpath α}

theorem isComplete_iff : t.isComplete = true ↔ t.cursor = t.segments.size := beq_iff_eq

theorem eq_seekEnd_of_isComplete (h : t.isComplete) : t = t.seekEnd := by
  obtain ⟨segments, cursor, hle⟩ := t
  have hcursor : cursor = segments.size := isComplete_iff.mp h
  subst hcursor
  rfl

/-- The cursor is the number of visible segments. -/
theorem length_visible (t : Toolpath α) : t.visible.length = t.cursor := by
  simp [visible, Nat.min_eq_left t.cursor_le]

theorem visible_reset (t : Toolpath α) : t.reset.visible = [] := by
  simp [reset, visible]

theorem visible_seekEnd (t : Toolpath α) : t.seekEnd.visible = t.segments.toList := by
  simp [seekEnd, visible]

/-- Where not all is visible, advancing shows the segment at the cursor. -/
theorem advance_of_not_isComplete (h : t.isComplete = false) :
    ∃ hlt : t.cursor < t.segments.size,
      t.advance = ⟨t.segments, t.cursor + 1, hlt⟩ ∧
        t.advance.current? = some t.segments[t.cursor] := by
  have hlt : t.cursor < t.segments.size := by
    refine Nat.lt_of_le_of_ne t.cursor_le fun heq => ?_
    rw [isComplete_iff.mpr heq] at h
    cases h
  have hadvance : t.advance = ⟨t.segments, t.cursor + 1, hlt⟩ := dif_pos hlt
  refine ⟨hlt, hadvance, ?_⟩
  simp [hadvance, current?, hlt]

end Toolpath

namespace Report

/-- The line of a step: its number in decimal digits, on the right of six places or more, two
blanks, and the segment as a listing shows it. -/
def stepText (n : Nat) (segment : Segment Float) : Text :=
  List.replicate (6 - (Nat.toDigits 10 n).length) ' ' ++ Nat.toDigits 10 n ++ [' ', ' '] ++
    segment.display.toList

theorem stepLine_eq (n : Nat) (segment : Segment Float) :
    stepLine n segment = String.ofList (stepText n segment) := by
  rw [← String.toList_inj, toList_stepLine, String.toList_ofList, stepText]

/-- The lines of some segments, numbered on behind a number. -/
def numbered (before : Nat) (segments : List (Segment Float)) : List Text :=
  (segments.zipIdx (before + 1)).map fun e => stepText e.2 e.1

theorem length_numbered (before : Nat) (segments : List (Segment Float)) :
    (numbered before segments).length = segments.length := by
  simp [numbered]

theorem getElem?_numbered {before k : Nat} {segments : List (Segment Float)}
    (h : k < segments.length) :
    (numbered before segments)[k]? = some (stepText (before + 1 + k) segments[k]) := by
  simp [numbered, h]

/-- **Playing from any position**, with turns enough, prints the segments that are not visible yet,
each once and in order, numbered by the cursor; and then all are visible. -/
theorem run_playFrom {turns : Nat} {t : Toolpath Float} (h : t.size - t.cursor ≤ turns)
    (w : Written) :
    (playFrom turns t).run w = .ok t.seekEnd
      (w.print ((numbered t.cursor (t.segments.toList.drop t.cursor)).map String.ofList)) := by
  have hend {t : Toolpath Float} (hcomplete : t.isComplete) (w : Written) :
      (pure t : Console (Toolpath Float)).run w = .ok t.seekEnd
        (w.print ((numbered t.cursor (t.segments.toList.drop t.cursor)).map String.ofList)) := by
    have hcursor := Toolpath.isComplete_iff.mp hcomplete
    rw [List.drop_of_length_le (by simp [hcursor]), ← Toolpath.eq_seekEnd_of_isComplete hcomplete]
    simp [numbered]
  induction turns generalizing t w with
  | zero =>
    have hle := t.cursor_le
    have hsize : t.size = t.segments.size := rfl
    exact hend (Toolpath.isComplete_iff.mpr (by omega)) w
  | succ turns ih =>
    rw [playFrom]
    cases hcomplete : t.isComplete with
    | true => exact hend hcomplete w
    | false =>
      obtain ⟨hlt, hadvance, hcurrent⟩ := Toolpath.advance_of_not_isComplete hcomplete
      have hturns : t.advance.size - t.advance.cursor ≤ turns := by
        have hsize : t.size = t.segments.size := rfl
        rw [hadvance]
        simp only [Toolpath.size]
        omega
      have hlength : t.cursor < t.segments.toList.length := by simpa using hlt
      have hnumbered : numbered t.cursor (t.segments.toList.drop t.cursor) =
          stepText (t.cursor + 1) t.segments[t.cursor] ::
            numbered (t.cursor + 1) (t.segments.toList.drop (t.cursor + 1)) := by
        rw [numbered, List.drop_eq_getElem_cons hlength, List.zipIdx_cons, List.map_cons,
          Array.getElem_toList, numbered]
      simp only [Bool.false_eq_true, if_false, hcurrent]
      rw [Console.run_bind_of_ok (Console.run_print _ w), ih hturns, stepLine_eq, hadvance,
        Written.print_print, hnumbered]
      rfl

/-- **Playing starts over** and prints every segment once, in order, whatever was visible before. -/
theorem run_play (t : Toolpath Float) (w : Written) :
    (play t).run w =
      .ok t.seekEnd (w.print ((numbered 0 t.segments.toList).map String.ofList)) :=
  run_playFrom (t := t.reset) (Nat.sub_le _ _) w

/-- **The loop ends by itself**: with more turns than there are segments it does the same, and all
are visible behind it. -/
theorem play_ends {turns : Nat} {t : Toolpath Float} (h : t.size ≤ turns) (w : Written) :
    ∃ ended after, (playFrom turns t.reset).run w = .ok ended after ∧
      (play t).run w = .ok ended after ∧ ended.isComplete := by
  have hreset : t.reset.size - t.reset.cursor ≤ turns := Nat.le_trans (Nat.sub_le _ _) h
  exact ⟨_, _, run_playFrom hreset w, run_play t w, Toolpath.isComplete_iff.mpr rfl⟩

/-! ## 2. The report -/

/-- The last line of a report: how many segments are visible of how many, and what is drawn of the
visible ones. -/
def visibleText (arcSegments : UInt32) (seen : List (Segment Float)) (total : Nat) : Text :=
  let drawn := strips arcSegments.toNat seen
  "visible:  ".toList ++ Nat.toDigits 10 seen.length ++ "/".toList ++ Nat.toDigits 10 total ++
    " segments, ".toList ++ Nat.toDigits 10 drawn.length ++ " strips, ".toList ++
    Nat.toDigits 10 drawn.flatten.length ++ " vertices".toList

theorem visibleLine_eq (arcSegments : UInt32) (t : Toolpath Float) :
    visibleLine arcSegments t =
      String.ofList (visibleText arcSegments t.visible t.segments.toList.length) := by
  rw [← String.toList_inj, String.toList_ofList]
  unfold visibleLine visibleText
  simp only [String.toList_append, toString, Nat.toList_repr]
  simp only [Toolpath.length_visible, Array.length_toList, Toolpath.size]

/-- The lines of a report before any segment is shown: the program, its commands, and the summary
and the bounds of its tool path. -/
def heading (program : Text) (s : Simulation Float) : List Text :=
  ["program:  ".toList ++ program,
   "commands: ".toList ++ Nat.toDigits 10 s.commandCount,
   "toolpath: ".toList ++ s.toolpath.summary.display.toList,
   (boundsLine s.toolpath.bounds?).toList]

/-- A whole report: the heading; then, if steps are asked for, one line for every segment, numbered
from 1; and last what is visible, which is all if there are steps or if programs are shown whole at
first, and else nothing. -/
def whole (program : Text) (steps : Bool) (playback : PlaybackOptions) (s : Simulation Float) :
    List Text :=
  let all := s.toolpath.segments.toList
  let seen := if steps || playback.startAtEnd then all else []
  heading program s ++ (if steps then numbered 0 all else []) ++
    [visibleText playback.arcSegments seen all.length]

theorem segments_prepared (playback : PlaybackOptions) (s : Simulation Float) :
    (s.prepared playback).segments = s.toolpath.segments := by
  unfold Simulation.prepared
  split <;> rfl

/-- The part of a report that depends on whether steps are asked for: what it prints, and what is
visible behind it. -/
theorem run_steps (steps : Bool) (playback : PlaybackOptions) (s : Simulation Float)
    (w : Written) :
    let all := s.toolpath.segments.toList
    ∃ ended : Toolpath Float,
      (if steps then play (s.prepared playback) else pure (s.prepared playback)).run w =
        .ok ended (w.print ((if steps then numbered 0 all else []).map String.ofList)) ∧
      ended.segments = s.toolpath.segments ∧
      ended.visible = if steps || playback.startAtEnd then all else [] := by
  intro all
  have hsegments := segments_prepared playback s
  cases steps with
  | true =>
    refine ⟨(s.prepared playback).seekEnd, ?_, hsegments, ?_⟩
    · simp only [if_true, run_play, hsegments, all]
    · simp only [Bool.true_or, if_true, Toolpath.visible_seekEnd, hsegments, all]
  | false =>
    refine ⟨s.prepared playback, by simp, hsegments, ?_⟩
    unfold Simulation.prepared
    cases playback.startAtEnd with
    | true => exact Toolpath.visible_seekEnd s.toolpath
    | false => exact Toolpath.visible_reset s.toolpath

/-- **What is printed is the whole report**, whatever was visible when the playing began. -/
theorem run_print (program : Text) (steps : Bool) (playback : PlaybackOptions)
    (s : Simulation Float) (w : Written) :
    (print program steps playback s).run w =
      .ok () (w.print ((whole program steps playback s).map String.ofList)) := by
  have hsummary : (s.prepared playback).summary = s.toolpath.summary := by
    rw [Toolpath.summary, segments_prepared, Toolpath.summary]
  have hbounds : (s.prepared playback).bounds? = s.toolpath.bounds? := by
    simp only [Toolpath.bounds?, segments_prepared]
  have hheading :
      [s!"program:  {String.ofList program}", s!"commands: {s.commandCount}",
        s!"toolpath: {s.toolpath.summary.display}", boundsLine s.toolpath.bounds?] =
      (heading program s).map String.ofList := by
    simp only [heading, List.map_cons, List.map_nil, String.ofList_append, String.ofList_toList,
      toString, Nat.repr]
  obtain ⟨ended, hrun, hsegments, hvisible⟩ :=
    run_steps steps playback s (w.print ((heading program s).map String.ofList))
  unfold print
  simp only [EStateM.run_bind, Console.run_print, Written.print_print, hsummary, hbounds,
    List.cons_append, List.nil_append]
  rw [hheading, hrun]
  simp only [Written.print_print, visibleLine_eq, hsegments, hvisible, whole, List.map_append,
    List.map_cons, List.map_nil]

theorem feed_notMem_stepText (n : Nat) (segment : Segment Float) :
    '\n' ∉ stepText n segment := by
  have hsegment : '\n' ∉ segment.display.toList := isLine_segment segment
  simp [stepText, feed_notMem_toDigits, hsegment]

/-- **A step is one line**, whatever the segment. -/
theorem feed_notMem_of_mem_numbered {before : Nat} {segments : List (Segment Float)} {l : Text}
    (h : l ∈ numbered before segments) : '\n' ∉ l := by
  obtain ⟨e, -, rfl⟩ := List.mem_map.mp h
  exact feed_notMem_stepText e.2 e.1

theorem feed_notMem_visibleText (arcSegments : UInt32) (seen : List (Segment Float))
    (total : Nat) : '\n' ∉ visibleText arcSegments seen total := by
  unfold visibleText
  simp only [List.mem_append, not_or, feed_notMem_toDigits, not_false_iff, and_true]
  decide

/-- The heading is four lines, if the path of the program is one. -/
theorem feed_notMem_of_mem_tail_heading {program : Text} {s : Simulation Float} {l : Text}
    (h : l ∈ (heading program s).tail) : '\n' ∉ l := by
  have hcommands := feed_notMem_toDigits s.commandCount
  have hsummary : '\n' ∉ s.toolpath.summary.display.toList := isLine_summary _
  have hbounds : '\n' ∉ (boundsLine s.toolpath.bounds?).toList := isLine_bounds _
  simp only [heading, List.tail_cons, List.mem_cons, List.not_mem_nil, or_false] at h
  rcases h with rfl | rfl | rfl
  · simp [hcommands]
  · simp [hsummary]
  · exact hbounds

/-- **The lines of a report**, between its heading and its last line: none without steps, and with
steps one for every segment, numbered from 1. -/
theorem exists_played (program : Text) (steps : Bool) (playback : PlaybackOptions)
    (s : Simulation Float) :
    let all := s.toolpath.segments.toList
    let seen := if steps || playback.startAtEnd then all else []
    ∃ played : List Text,
      whole program steps playback s =
        heading program s ++ played ++ [visibleText playback.arcSegments seen all.length] ∧
      (steps = false → played = []) ∧
      (steps = true → played.length = all.length ∧ ∀ k (hk : k < all.length),
        played[k]? = some (stepText (k + 1) all[k])) ∧
      ∀ line ∈ (whole program steps playback s).tail, '\n' ∉ line := by
  intro all seen
  refine ⟨if steps then numbered 0 all else [], rfl, ?none, ?all, ?lines⟩
  case none =>
    rintro rfl
    rfl
  case all =>
    rintro rfl
    refine ⟨length_numbered 0 all, fun k hk => ?_⟩
    rw [if_pos rfl, getElem?_numbered hk, Nat.zero_add, Nat.add_comm]
  case lines =>
    intro line hline
    have hmem : line ∈ (heading program s).tail ++ (if steps then numbered 0 all else []) ++
        [visibleText playback.arcSegments seen all.length] := hline
    rw [List.mem_append, List.mem_append, List.mem_singleton] at hmem
    rcases hmem with (h | h) | rfl
    · exact feed_notMem_of_mem_tail_heading h
    · split at h
      · exact feed_notMem_of_mem_numbered h
      · cases h
    · exact feed_notMem_visibleText _ _ _

end Report
end Motion
