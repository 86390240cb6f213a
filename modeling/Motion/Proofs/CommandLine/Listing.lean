/-
# What listings show

Points, segments and summaries are shown as texts (`display`).  The numbers in them are the nearest
ones with a fixed number of places (`Double.readDecimal_fixed`).  Whatever the numbers are, such a
text is one line (`IsLine`), so what is printed line by line has as many lines as were printed.  The
text of a segment begins with what the segment is called (`label_prefix_display`).
-/
import Motion.CommandLine.Report
import Motion.Proofs.Number.Rendering

namespace Motion

/-! ## 1. Lines -/

/-- The text does not go on to another line. -/
def IsLine (s : String) : Prop := '\n' ∉ s.toList

instance (s : String) : Decidable (IsLine s) := inferInstanceAs (Decidable ('\n' ∉ s.toList))

@[simp] theorem isLine_append {s t : String} : IsLine (s ++ t) ↔ IsLine s ∧ IsLine t := by
  rw [IsLine, String.toList_append, List.mem_append, not_or]
  rfl

/-! ## 2. Numbers -/

theorem feed_notMem_toDigits (n : Nat) : '\n' ∉ Nat.toDigits 10 n :=
  fun h => Bool.false_ne_true (Text.isDigit_of_mem_toDigits h)

@[simp] theorem isLine_repr (n : Nat) : IsLine n.repr := by
  rw [IsLine, Nat.toList_repr]
  exact feed_notMem_toDigits n

theorem feed_notMem_padded (width n : Nat) : '\n' ∉ Double.padded width n :=
  fun h => Bool.false_ne_true (Double.isDigit_of_mem_padded h)

@[simp] theorem isLine_fixed (places : Nat) (x : Float) : IsLine (Double.fixed places x) := by
  have hsign (negative : Bool) : IsLine (Double.signText negative) := by
    cases negative <;> decide
  unfold Double.fixed
  split
  case h_1 negative mantissa exponent =>
    refine isLine_append.mpr ⟨hsign _, ?_⟩
    rw [IsLine, String.toList_ofList]
    intro hmem
    rcases List.mem_append.mp hmem with hmem | hmem
    · exact feed_notMem_padded _ _ (List.mem_of_mem_take hmem)
    · split at hmem
      · cases hmem
      · rcases List.mem_cons.mp hmem with hpoint | hmem
        · cases hpoint
        · exact feed_notMem_padded _ _ (List.mem_of_mem_drop hmem)
  case h_2 =>
    unfold Double.oddText
    split
    · exact isLine_append.mpr ⟨hsign _, by decide⟩
    · decide

/-! ## 3. Texts with numbers in them -/

@[simp] theorem isLine_point (p : Point Float) : IsLine p.display := by
  simp only [Point.display, toString, isLine_append, isLine_fixed, and_true]
  decide

theorem isLine_arc (a : Arc Float) : IsLine a.display := by
  have hlabel : IsLine a.label := by
    unfold Arc.label
    split <;> decide
  simp only [Arc.display, toString, isLine_append, isLine_fixed, hlabel, and_true, true_and]
  decide

theorem isLine_segment (segment : Segment Float) : IsLine segment.display := by
  cases segment with
  | move stop =>
    simp only [Segment.display, toString, isLine_append, isLine_point, and_true]
    decide
  | line start stop =>
    simp only [Segment.display, toString, isLine_append, isLine_point, and_true]
    decide
  | arc a => exact isLine_arc a

/-- **A segment is shown under its name**: that is the first word of its text. -/
theorem label_prefix_display (segment : Segment Float) :
    segment.label.toList ++ [' '] <+: segment.display.toList := by
  cases segment with
  | move stop =>
    have hword : "move -> ".toList = "move".toList ++ [' '] ++ "-> ".toList := by decide
    simp only [Segment.display, Segment.label, toString, String.toList_append, hword]
    rw [List.append_assoc]
    exact List.prefix_append _ _
  | line start stop =>
    have hword : "line ".toList = "line".toList ++ [' '] := by decide
    simp only [Segment.display, Segment.label, toString, String.toList_append, hword]
    rw [List.append_assoc, List.append_assoc]
    exact List.prefix_append _ _
  | arc a =>
    have hword : " center=(".toList = [' '] ++ "center=(".toList := by decide
    simp only [Segment.display, Segment.label, Arc.display, toString, String.toList_append, hword,
      List.append_assoc]
    rw [← List.append_assoc]
    exact List.prefix_append _ _

theorem isLine_summary (s : Summary Float) : IsLine s.display := by
  unfold Summary.display
  simp only [toString, isLine_append, isLine_repr, isLine_fixed, and_true]
  decide

theorem isLine_bounds (b : Option (Box Float)) : IsLine (Report.boundsLine b) := by
  cases b with
  | none => decide
  | some b =>
    unfold Report.boundsLine
    simp only [toString, isLine_append, isLine_fixed, and_true]
    decide

end Motion
