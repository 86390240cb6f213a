/-
# Where lines end

`cut` is a homomorphism at every line feed: what stands before a line feed and what stands after it
are cut independently (`cut_append_feed`).  From this follow the two equations of `lines`, for a
text without a line feed and for a first line in front of the rest, and the law of two texts put
one behind the other (`lines_append`), which needs the first one to be empty or to end its last
line.

Proofs about lines go by `feed_induction`: a sequence has no line feed, or it is a first line, a
line feed and a shorter sequence.

The last section is about the blanks at the end of a line.  A carriage return is blank, so it makes
no difference to `trim` whether it counts as a part of the line or of its ending.
-/
import Motion.Text.Lines

namespace Motion.Text

/-! ## 1. Cutting at line feeds -/

section Cut

variable {α : Type} [BEq α] [LawfulBEq α] {feed : α}

theorem cut_of_notMem {l : List α} (h : feed ∉ l) : cut feed l = ([], l) := by
  simp [cut, List.splitOn_eq_singleton h]

/-- **Cutting is a homomorphism at every line feed.**  The unfinished piece before it becomes a
piece of its own, and the cut goes on behind it. -/
theorem cut_append_feed (a b : List α) :
    cut feed (a ++ feed :: b) =
      ((cut feed a).1 ++ (cut feed a).2 :: (cut feed b).1, (cut feed b).2) := by
  have ha : a.splitOn feed ≠ [] := List.splitOn_ne_nil feed a
  have hb : b.splitOn feed ≠ [] := List.splitOn_ne_nil feed b
  have hlast : (a.splitOn feed).dropLast ++ [(a.splitOn feed).getLastD []] = a.splitOn feed := by
    rw [List.getLastD_eq_getLast?, List.getLast?_eq_some_getLast ha]
    exact List.dropLast_concat_getLast ha
  simp only [cut, List.splitOn_append_cons_self, List.dropLast_append_of_ne_nil hb]
  rw [← List.singleton_append, ← List.append_assoc, hlast]
  simp [List.getLastD_eq_getLast?, List.getLast?_eq_some_getLast hb]

theorem cut_cons_feed {l : List α} (h : feed ∉ l) (rest : List α) :
    cut feed (l ++ feed :: rest) = (l :: (cut feed rest).1, (cut feed rest).2) := by
  rw [cut_append_feed, cut_of_notMem h, List.nil_append]

/-- Every sequence is its first line, or a first line with its line feed in front of the rest. -/
@[elab_as_elim]
theorem feed_induction (feed : α) {motive : List α → Prop} (last : ∀ l, feed ∉ l → motive l)
    (line : ∀ l rest, feed ∉ l → motive rest → motive (l ++ feed :: rest)) :
    ∀ l, motive l := by
  intro l
  induction hn : l.length using Nat.strongRecOn generalizing l with
  | ind n ih =>
    by_cases h : feed ∈ l
    · obtain ⟨first, rest, rfl, hfirst⟩ := List.eq_append_cons_of_mem h
      refine line first rest hfirst (ih rest.length ?_ rest rfl)
      rw [← hn, List.length_append, List.length_cons]
      omega
    · exact last l h

end Cut

theorem dropFinal_concat {α : Type} [BEq α] [LawfulBEq α] (a : α) (l : List α) :
    dropFinal a (l ++ [a]) = l := by
  simp [dropFinal]

theorem dropFinal_of_notMem {α : Type} [BEq α] [LawfulBEq α] {a : α} {l : List α} (h : a ∉ l) :
    dropFinal a l = l := by
  have hlast : l.getLast? ≠ some a := fun e => h (List.mem_of_getLast? e)
  simp [dropFinal, hlast]

/-! ## 2. Lines -/

theorem lines_of_notMem {t : Text} (h : '\n' ∉ t) : lines t = if t.isEmpty then [] else [t] := by
  simp [lines, cut_of_notMem h]

theorem lines_cons_feed {t : Text} (h : '\n' ∉ t) (rest : Text) :
    lines (t ++ '\n' :: rest) = dropFinal '\r' t :: lines rest := by
  simp [lines, cut_cons_feed h]

@[simp] theorem lines_nil : lines [] = [] := lines_of_notMem (by simp)

/-- **The lines of a text in two parts.**  Where the first part is empty or ends with a line feed,
no line is in both parts. -/
theorem lines_append {a : Text} (h : a = [] ∨ a.getLast? = some '\n') (b : Text) :
    lines (a ++ b) = lines a ++ lines b := by
  rcases h with rfl | h
  · simp
  · obtain ⟨a, rfl⟩ := List.getLast?_eq_some_iff.mp h
    have hempty : cut '\n' ([] : Text) = ([], []) := cut_of_notMem (by simp)
    simp [lines, cut_append_feed, hempty]

/-! ## 3. Blanks at the end of a line -/

theorem trimEnd_append {bs : Text} (h : ∀ c ∈ bs, isBlank c = true) (t : Text) :
    trimEnd (t ++ bs) = trimEnd t := by
  have hrev : ∀ c ∈ bs.reverse, isBlank c = true := fun c hc => h c (List.mem_reverse.mp hc)
  rw [trimEnd, trimEnd, List.reverse_append, List.dropWhile_append_of_pos hrev]

/-- **Blanks at the end of a text are trimmed away.** -/
theorem trim_append {bs : Text} (h : ∀ c ∈ bs, isBlank c = true) (t : Text) :
    trim (t ++ bs) = trim t := by
  have hbs : bs.dropWhile isBlank = [] := by
    rw [← List.append_nil bs, List.dropWhile_append_of_pos h, List.dropWhile_nil]
  rw [trim, trim, trimStart, trimStart, List.dropWhile_append, hbs]
  split
  · rename_i hempty
    rw [List.isEmpty_iff.mp hempty]
  · exact trimEnd_append h _

end Motion.Text
