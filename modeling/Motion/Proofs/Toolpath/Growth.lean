/-
# Drawings only grow

A tool path is played by drawing longer and longer beginnings of it, each from nothing.  Between
two of them the segments may join the pending strip, end it or drop it, so it is not plain that
what was drawn stays.  It does: the later drawing has the strips of the earlier one, unchanged but
for the last, and that one it may only lengthen at its end (`Extends`).

`Drawing.drawn` is what a drawing comes to if it ends where it stands, the finished strips and the
pending one if that is long enough.  One more segment either lengthens the pending strip or finishes
it (`Drawing.add_cases`), and in both cases `drawn` is extended.  As `Extends` is transitive, so it
is by any number of segments.
-/
import Mathlib.Logic.Function.Iterate
import Motion.Number.Double
import Motion.Toolpath
import Motion.Toolpath.Strips

namespace Motion

/-! ## 1. One list of strips extends another -/

variable {α : Type}

/-- Strips go on where others stop. -/
structure Extends (before after : List (List (Point α))) : Prop where
  /-- No strip is lost. -/
  length_le : before.length ≤ after.length
  /-- All strips but the last stay as they are, in their places. -/
  fixed : ∀ i, i + 1 < before.length → after[i]? = before[i]?
  /-- The last one stays at the beginning of the strip in its place. -/
  last : ∀ strip, before.getLast? = some strip →
    ∃ grown, after[before.length - 1]? = some grown ∧ strip <+: grown

/-- A vertex is drawn, as one of those of a strip. -/
def Shown (strips : List (List (Point α))) (i j : Nat) (v : Point α) : Prop :=
  ∃ strip, strips[i]? = some strip ∧ strip[j]? = some v

namespace Extends

theorem append (l m : List (List (Point α))) : Extends l (l ++ m) where
  length_le := by simp
  fixed i hi := List.getElem?_append_left (by omega)
  last strip h := by
    rw [List.getLast?_eq_getElem?] at h
    obtain ⟨hlt, -⟩ := List.getElem?_eq_some_iff.mp h
    exact ⟨strip, by rw [List.getElem?_append_left hlt, h], List.prefix_refl strip⟩

/-- The last strip is lengthened, and others may follow. -/
theorem lengthen (l : List (List (Point α))) {strip grown : List (Point α)} (h : strip <+: grown)
    (m : List (List (Point α))) : Extends (l ++ [strip]) (l ++ grown :: m) where
  length_le := by simp
  fixed i hi := by
    have hlt : i < l.length := by simpa using hi
    rw [List.getElem?_append_left hlt, List.getElem?_append_left hlt]
  last strip' hlast := by
    have heq : strip = strip' := by simpa using hlast
    exact ⟨grown, by simp, heq ▸ h⟩

theorem refl (l : List (List (Point α))) : Extends l l := by
  simpa using append l []

/-- **Extensions of extensions.**  If a strip follows the lengthened one, that one is no longer the
last, and the second extension leaves it alone. -/
theorem trans {p q r : List (List (Point α))} (hpq : Extends p q) (hqr : Extends q r) :
    Extends p r where
  length_le := Nat.le_trans hpq.length_le hqr.length_le
  fixed i hi := by
    have hq : i + 1 < q.length := Nat.lt_of_lt_of_le hi hpq.length_le
    rw [hqr.fixed i hq, hpq.fixed i hi]
  last strip h := by
    obtain ⟨grown, hgrown, hprefix⟩ := hpq.last strip h
    have hpos : 0 < p.length := List.length_pos_of_mem (List.mem_of_getLast? h)
    rcases Nat.lt_or_eq_of_le hpq.length_le with hlt | heq
    · refine ⟨grown, ?_, hprefix⟩
      rw [hqr.fixed (p.length - 1) (by omega), hgrown]
    · rw [heq, ← List.getLast?_eq_getElem?] at hgrown
      obtain ⟨grown', hgrown', hprefix'⟩ := hqr.last grown hgrown
      exact ⟨grown', by rw [heq, hgrown'], hprefix.trans hprefix'⟩

/-- **Every vertex keeps its place.** -/
theorem shown {p q : List (List (Point α))} (h : Extends p q) {i j : Nat} {v : Point α}
    (hv : Shown p i j v) : Shown q i j v := by
  obtain ⟨strip, hstrip, hj⟩ := hv
  obtain ⟨hi, -⟩ := List.getElem?_eq_some_iff.mp hstrip
  rcases Nat.lt_or_ge (i + 1) p.length with hlt | hge
  · exact ⟨strip, by rw [h.fixed i hlt, hstrip], hj⟩
  · have hlast : p.length - 1 = i := by omega
    obtain ⟨grown, hgrown, hprefix⟩ :=
      h.last strip (by rw [List.getLast?_eq_getElem?, hlast, hstrip])
    rw [hlast] at hgrown
    obtain ⟨tail, rfl⟩ := hprefix
    obtain ⟨hjlt, -⟩ := List.getElem?_eq_some_iff.mp hj
    exact ⟨strip ++ tail, hgrown, by rw [List.getElem?_append_left hjlt, hj]⟩

end Extends

/-! ## 2. One more segment -/

namespace Drawing

/-- What a drawing comes to if it ends here. -/
def drawn (d : Drawing α) : List (List (Point α)) := d.finish.finished.toList

theorem drawn_eq (d : Drawing α) :
    d.drawn =
      d.finished.toList ++ if 1 < d.current.size then [d.current.toList] else [] := by
  unfold drawn finish
  split <;> simp

variable [Scalar α]

/-- **What one segment does**: it lengthens the pending strip, or it finishes it and leaves another
one pending. -/
theorem add_cases (n : Nat) (d : Drawing α) (segment : Segment α) :
    (∃ vs, d.add n segment = ⟨d.finished, d.current ++ vs⟩) ∨
      ∃ vs, d.add n segment = ⟨d.finish.finished, vs⟩ := by
  unfold add
  split
  · exact Or.inr ⟨#[], rfl⟩
  · split
    · exact Or.inr ⟨#[], rfl⟩
    · rename_i p rest _
      split
      · exact Or.inl ⟨rest.toArray, congrArg (Drawing.mk _) (Array.ext' (by simp))⟩
      · exact Or.inr ⟨_, rfl⟩

/-- **One segment extends what is drawn.** -/
theorem drawn_add (n : Nat) (d : Drawing α) (segment : Segment α) :
    Extends d.drawn (d.add n segment).drawn := by
  rcases add_cases n d segment with ⟨vs, hadd⟩ | ⟨vs, hadd⟩
  · rw [hadd, drawn_eq, drawn_eq]
    by_cases hsize : 1 < d.current.size
    · have hgrown : 1 < (d.current ++ vs).size := by rw [Array.size_append]; omega
      rw [if_pos hsize, if_pos hgrown]
      exact .lengthen _ (by simp) []
    · rw [if_neg hsize, List.append_nil]
      exact .append _ _
  · have hdrawn : (d.add n segment).drawn
        = d.drawn ++ if 1 < vs.size then [vs.toList] else [] := by
      rw [hadd, drawn_eq, drawn]
    rw [hdrawn]
    exact .append _ _

/-- **Any number of segments extends what is drawn.** -/
theorem drawn_foldl (n : Nat) (d : Drawing α) (segments : List (Segment α)) :
    Extends d.drawn (segments.foldl (add n) d).drawn := by
  induction segments generalizing d with
  | nil => exact .refl _
  | cons segment rest ih => exact (drawn_add n d segment).trans (ih (d.add n segment))

end Drawing

/-! ## 3. Beginnings of a tool path -/

namespace Toolpath

theorem visible_eq_take (t : Toolpath α) : t.visible = t.segments.toList.take t.cursor := by
  simp [visible]

/-- An advance leaves what is visible visible. -/
theorem visible_prefix_advance (t : Toolpath α) : t.visible <+: t.advance.visible := by
  unfold advance
  split
  · rw [visible_eq_take, visible_eq_take]
    exact List.take_prefix_take_left (Nat.le_succ _)
  · exact List.prefix_refl _

theorem visible_prefix_iterate (t : Toolpath α) (m : Nat) :
    t.visible <+: (advance^[m] t).visible := by
  induction m with
  | zero => exact List.prefix_refl _
  | succ m ih =>
    rw [Function.iterate_succ_apply']
    exact ih.trans (visible_prefix_advance _)

end Toolpath

variable [Scalar α]

theorem strips_extends (n : Nat) {first segments : List (Segment α)} (h : first <+: segments) :
    Extends (strips n first) (strips n segments) := by
  obtain ⟨rest, rfl⟩ := h
  have hdrawn := Drawing.drawn_foldl n (first.foldl (Drawing.add n) .empty) rest
  rwa [← List.foldl_append] at hdrawn

/-- **What is drawn of a beginning stays.**  However many segments a drawing stops after, the whole
drawing extends it; and so, however far a tool path has been played and however often it is
advanced from there, no vertex that is shown is lost, moved or put in another place. -/
theorem strips_take_extends (n : Nat) (segments : List (Segment α)) (k : Nat) :
    Extends (strips n (segments.take k)) (strips n segments) ∧
      ∀ (t : Toolpath α) (m : Nat),
        Extends (strips n t.visible) (strips n (Toolpath.advance^[m] t).visible) ∧
          ∀ i j v, Shown (strips n t.visible) i j v →
            Shown (strips n (Toolpath.advance^[m] t).visible) i j v := by
  refine ⟨strips_extends n (List.take_prefix k segments), fun t m => ?_⟩
  have hextends := strips_extends n (t.visible_prefix_iterate m)
  exact ⟨hextends, fun i j v => hextends.shown⟩

/-- A line is drawn, and so is one that goes on from it. -/
theorem strips_take_extends_two_lines :
    let p : Point Float := ⟨0, 0, 0⟩
    let q : Point Float := ⟨1, 0, 0⟩
    let t := (Toolpath.ofSegments #[.line p q, .line q ⟨1, 1, 0⟩]).advance
    Shown (strips 1 t.visible) 0 1 q ∧
      Shown (strips 1 (Toolpath.advance^[1] t).visible) 0 1 q := by
  intro p q t
  have hshown : Shown (strips 1 t.visible) 0 1 q := ⟨[p, q], rfl, rfl⟩
  exact ⟨hshown, ((strips_take_extends 1 t.visible 0).2 t 1).2 0 1 q hshown⟩

end Motion
