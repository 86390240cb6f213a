/-
# The cursor is a clamped counter

A viewer plays a tool path with five controls.  None of them asks whether it makes sense: the cursor
is advanced at the end, stepped back at the start and sent to places that are not there.  What comes
of it is said without a tool path.  A control aims at a number, for which there are no ends
(`Control.aim`), and the number is then brought into the range from none to all (`Control.count`).

| control          | aims at                   |
|------------------|---------------------------|
| `advance`        | one more                  |
| `stepBack`       | one less                  |
| `reset`          | 0                         |
| `seekEnd`        | the number of segments    |
| `setIndex n`     | `n`                       |

One control does to the cursor what it does to the counter (`Control.cursor_apply`), and so does any
number of them (`Toolpath.cursor_run`).  The segments are never touched.  What is visible, which
segment is the current one and whether all are visible follow from the cursor, at both ends and
where there are no segments (`cursor_is_clamped_counter`).
-/
import Motion.CommandLine.Report
import Motion.Proofs.CommandLine.Playing
import Motion.Proofs.Toolpath.Growth

namespace Motion

/-! ## 1. Controls and the counter -/

/-- What a viewer does to the cursor. -/
inductive Control where
  | advance
  | stepBack
  | reset
  | seekEnd
  | setIndex (index : Nat)
  deriving Repr, DecidableEq

namespace Control

/-- Where a control would take a counter without ends. -/
def aim (size : Nat) : Control → Int → Int
  | advance, n => n + 1
  | stepBack, n => n - 1
  | reset, _ => 0
  | seekEnd, _ => size
  | setIndex index, _ => index

/-- The counter after a control: what it aims at, brought into the range from 0 to `size`. -/
def count (size : Nat) (n : Int) (c : Control) : Int := max 0 (min (c.aim size n) size)

variable {α : Type}

/-- A control, applied to a tool path. -/
def apply (t : Toolpath α) : Control → Toolpath α
  | advance => t.advance
  | stepBack => t.stepBack
  | reset => t.reset
  | seekEnd => t.seekEnd
  | setIndex index => t.setIndex index

theorem segments_apply (t : Toolpath α) (c : Control) : (c.apply t).segments = t.segments := by
  cases c with
  | advance =>
    simp only [apply, Toolpath.advance]
    split <;> rfl
  | stepBack => rfl
  | reset => rfl
  | seekEnd => rfl
  | setIndex index => rfl

/-- **One control** does to the cursor what it does to the counter. -/
theorem cursor_apply (t : Toolpath α) (c : Control) :
    ((c.apply t).cursor : Int) = c.count t.segments.size t.cursor := by
  have hle := t.cursor_le
  cases c with
  | advance =>
    simp only [apply, Toolpath.advance, count, aim]
    split
    · simp only
      omega
    · omega
  | stepBack =>
    simp only [apply, Toolpath.stepBack, count, aim]
    omega
  | reset =>
    simp only [apply, Toolpath.reset, count, aim]
    omega
  | seekEnd =>
    simp only [apply, Toolpath.seekEnd, count, aim]
    omega
  | setIndex index =>
    simp only [apply, Toolpath.setIndex, Toolpath.size, count, aim]
    omega

end Control

/-! ## 2. Whole sessions -/

namespace Toolpath

variable {α : Type}

/-- The tool path after some controls, applied one after the other. -/
def run (t : Toolpath α) (cs : List Control) : Toolpath α := cs.foldl Control.apply t

/-- **No control touches the segments.** -/
theorem segments_run (t : Toolpath α) (cs : List Control) : (t.run cs).segments = t.segments := by
  unfold run
  induction cs generalizing t with
  | nil => rfl
  | cons c rest ih => rw [List.foldl_cons, ih, Control.segments_apply]

/-- **Any number of controls** does to the cursor what it does to the counter. -/
theorem cursor_run (t : Toolpath α) (cs : List Control) :
    ((t.run cs).cursor : Int) = cs.foldl (Control.count t.segments.size) (t.cursor : Int) := by
  unfold run
  induction cs generalizing t with
  | nil => rfl
  | cons c rest ih =>
    rw [List.foldl_cons, List.foldl_cons, ih, Control.segments_apply, Control.cursor_apply]

/-- A tool path is its segments and its cursor. -/
theorem eq_of_cursor_eq {t u : Toolpath α} (hsegments : t.segments = u.segments)
    (hcursor : t.cursor = u.cursor) : t = u := by
  obtain ⟨segments, cursor, hle⟩ := t
  obtain ⟨segments', cursor', hle'⟩ := u
  subst hsegments hcursor
  rfl

theorem segments_iterate_advance (t : Toolpath α) (m : Nat) :
    (advance^[m] t).segments = t.segments := by
  induction m with
  | zero => rfl
  | succ m ih =>
    rw [Function.iterate_succ_apply', ← ih]
    exact Control.segments_apply _ .advance

theorem cursor_iterate_advance (t : Toolpath α) (m : Nat) :
    (advance^[m] t).cursor = min (t.cursor + m) t.segments.size := by
  have hle := t.cursor_le
  induction m with
  | zero => simp [hle]
  | succ m ih =>
    have hstep := Control.cursor_apply (advance^[m] t) .advance
    rw [segments_iterate_advance, ih] at hstep
    simp only [Control.apply, Control.count, Control.aim] at hstep
    rw [Function.iterate_succ_apply']
    omega

/-- **Going to an index** is starting over and advancing that often, or to the end. -/
theorem setIndex_eq_iterate_advance (t : Toolpath α) (n : Nat) :
    t.setIndex n = advance^[min n t.segments.size] t.reset := by
  refine eq_of_cursor_eq (segments_iterate_advance t.reset _).symm ?_
  rw [cursor_iterate_advance]
  simp [setIndex, reset, size]

/-! ## 3. What is seen -/

/-- **The current segment** is the last one that is visible. -/
theorem current?_eq_getLast? (t : Toolpath α) : t.current? = t.visible.getLast? := by
  have hle := t.cursor_le
  rw [current?, List.getLast?_eq_getElem?, length_visible, visible_eq_take]
  split
  · rename_i hzero
    simp [hzero]
  · rw [List.getElem?_take_of_lt (by omega)]
    simp

theorem current?_eq_none_iff (t : Toolpath α) : t.current? = none ↔ t.cursor = 0 := by
  rw [current?_eq_getLast?, List.getLast?_eq_none_iff, ← List.length_eq_zero_iff, length_visible]

theorem isComplete_iff_visible (t : Toolpath α) :
    t.isComplete ↔ t.visible = t.segments.toList := by
  rw [isComplete_iff]
  constructor
  · intro h
    rw [visible_eq_take, h, ← Array.length_toList, List.take_length]
  · intro h
    rw [← length_visible, h, Array.length_toList]

end Toolpath

/-! ## 4. The statement -/

variable {α : Type} [Scalar α]

/-- **The cursor is a clamped counter.**

Whatever a viewer does to a tool path, the cursor is that of the counter, and it is never behind the
last segment.  As many segments as it says are visible, the first ones in their order; the current
one is the last of them, and there is none exactly if the cursor is 0; the playing is complete
exactly if all are visible.  Going to an index then is the same as starting over and advancing that
often, or as often as there are segments.  The segments, their bounds and their summary stay what
they are.

A new tool path starts with the counter at 0, and that of a simulation with the counter at 0 or at
the end, as the playback options say. -/
theorem cursor_is_clamped_counter :
    (∀ (t : Toolpath α) (cs : List Control),
      let u := t.run cs
      let size := t.segments.size
      (u.cursor : Int) = cs.foldl (Control.count size) (t.cursor : Int) ∧
        u.cursor ≤ size ∧
        (u.visible = t.segments.toList.take u.cursor ∧ u.visible.length = u.cursor) ∧
        (u.current? = u.visible.getLast? ∧ (u.current? = none ↔ u.cursor = 0)) ∧
        (u.isComplete ↔ u.visible = t.segments.toList) ∧
        (∀ n, u.setIndex n = Toolpath.advance^[min n size] u.reset) ∧
        u.segments = t.segments ∧ u.bounds? = t.bounds? ∧ u.summary = t.summary) ∧
      (∀ segments : Array (Segment α),
        (Toolpath.ofSegments segments).segments = segments ∧
          (Toolpath.ofSegments segments).cursor = 0) ∧
      ∀ (s : Simulation α) (playback : PlaybackOptions),
        (s.prepared playback).segments = s.toolpath.segments ∧
          (s.prepared playback).cursor =
            if playback.startAtEnd then s.toolpath.segments.size else 0 := by
  refine ⟨fun t cs => ?_, fun segments => ⟨rfl, rfl⟩, fun s playback => ?_⟩
  · intro u size
    have hsegments : u.segments = t.segments := t.segments_run cs
    have hle : u.cursor ≤ size := by
      have hle := u.cursor_le
      rwa [hsegments] at hle
    have hvisible := u.visible_eq_take
    have hcomplete := u.isComplete_iff_visible
    have hindex := u.setIndex_eq_iterate_advance
    rw [hsegments] at hvisible hcomplete hindex
    refine ⟨t.cursor_run cs, hle, ⟨hvisible, u.length_visible⟩,
      ⟨u.current?_eq_getLast?, u.current?_eq_none_iff⟩, hcomplete, hindex, hsegments, ?_, ?_⟩
    · simp only [Toolpath.bounds?, hsegments]
    · simp only [Toolpath.summary, hsegments]
  · unfold Simulation.prepared
    split
    · exact ⟨rfl, rfl⟩
    · exact ⟨rfl, rfl⟩

end Motion
