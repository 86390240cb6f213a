/-
# The box around some points

A box grows point by point, and along one axis that is a search: of the face and the next coordinate
the one further out is kept.  Two things are not plain from that.

* Nothing is lost: a face that has once been moved out to a coordinate never goes back behind it, so
  all points are in the box in the end (`Box.contains_around`).
* Nothing is invented: the search starts from the greatest finite value, and this could be left
  over.  But then every coordinate has that value, or the box is not valid (`Box.exists_low`,
  `Box.exists_high`).

Least and greatest differ in the order alone, so both are treated as the choice of what comes before
in some order (`Scalar.Picks`).  Coordinates that are no numbers are passed over by both.

It follows that a box depends only on which numbers occur along each axis, and not on their order or
how often they do (`Box.value_around_congr`).
-/
import Motion.Geometry.Box
import Motion.Proofs.Number.Rounding

namespace Motion

/-! ## 1. The search for an extreme -/

namespace Scalar

variable {α : Type} [Scalar α] {value : α → EReal} {round : EReal → EReal}
  {before : EReal → EReal → Prop}

/-- Of two values the one is picked that comes before the other; a number is never given up for what
is none. -/
structure Picks (value : α → EReal) (before : EReal → EReal → Prop) (pick : α → α → α) : Prop where
  number {a b : α} : isNaN a = false → isNaN (pick a b) = false
  left {a b : α} : isNaN a = false → before (value (pick a b)) (value a)
  right {a b : α} : isNaN a = false → isNaN b = false → before (value (pick a b)) (value b)
  eq_or_eq (a b : α) : pick a b = a ∨ pick a b = b

/-- A comparison that decides the order picks by it. -/
theorem picks_of_compare [IsPreorder EReal before] (compare : α → α → Bool)
    (hnumber : ∀ {a b : α}, compare b a → isNaN b = false)
    (htrue : ∀ {a b : α}, isNaN a = false → isNaN b = false → compare b a →
      before (value b) (value a))
    (hfalse : ∀ {a b : α}, isNaN a = false → isNaN b = false → compare b a = false →
      before (value a) (value b)) :
    Picks value before fun a b => if isNaN a then b else if compare b a then b else a := by
  refine ⟨fun {a b} ha => ?_, fun {a b} ha => ?_, fun {a b} ha hb => ?_, fun a b => ?_⟩
  case refine_4 => split_ifs <;> simp
  all_goals
    rw [ha, if_neg Bool.false_ne_true]
    cases hcompare : compare b a
  case refine_1.false => exact ha
  case refine_1.true => exact hnumber hcompare
  case refine_2.false => exact refl_of before _
  case refine_2.true => exact htrue ha (hnumber hcompare) hcompare
  case refine_3.false => exact hfalse ha hb hcompare
  case refine_3.true => exact refl_of before _

theorem picks_least (hr : Rounding value round) (hg : Ranged value) :
    Picks value (· ≤ ·) (least : α → α → α) :=
  picks_of_compare lt (fun h => (hg.isNaN_of_lt h).1)
    (fun ha hb h => ((hr.lt_iff hb ha).mp h).le)
    (fun ha hb h => not_lt.mp fun hlt => by simp [(hr.lt_iff hb ha).mpr hlt] at h)

theorem picks_greatest (hr : Rounding value round) (hg : Ranged value) :
    Picks value (· ≥ ·) (greatest : α → α → α) :=
  picks_of_compare (fun b a => lt a b) (fun h => (hg.isNaN_of_lt h).2)
    (fun ha hb h => ((hr.lt_iff ha hb).mp h).le)
    (fun ha hb h => not_lt.mp fun hlt => by simp [(hr.lt_iff ha hb).mpr hlt] at h)

/-- **The extreme of a list** comes before all numbers in it, and is one of them unless it is what
the search has started from. -/
theorem Picks.foldl [IsPreorder EReal before] {pick : α → α → α} (h : Picks value before pick)
    {a : α} (ha : isNaN a = false) (l : List α) :
    isNaN (l.foldl pick a) = false ∧ before (value (l.foldl pick a)) (value a) ∧
      (∀ b ∈ l, isNaN b = false → before (value (l.foldl pick a)) (value b)) ∧
      (l.foldl pick a = a ∨ l.foldl pick a ∈ l) := by
  induction l generalizing a with
  | nil => exact ⟨ha, refl_of before _, by simp, Or.inl rfl⟩
  | cons c l ih =>
    obtain ⟨hnumber, hstart, hall, hmem⟩ := ih (h.number (b := c) ha)
    refine ⟨hnumber, trans_of before hstart (h.left ha), fun b hb hbn => ?_, ?_⟩
    · rcases List.mem_cons.mp hb with rfl | hb
      · exact trans_of before hstart (h.right ha hbn)
      · exact hall b hb hbn
    · rw [List.foldl_cons]
      rcases hmem with hmem | hmem
      · rw [hmem]
        refine (h.eq_or_eq a c).imp_right fun heq => ?_
        rw [heq]
        exact List.mem_cons_self
      · exact Or.inr (List.mem_cons_of_mem c hmem)

/-- The number stands in the list. -/
def Occurs (value : α → EReal) (l : List α) (v : EReal) : Prop :=
  ∃ b ∈ l, isNaN b = false ∧ value b = v

/-- **Where more numbers occur the extreme is further out**, in whatever order and however often
they do. -/
theorem Picks.foldl_before [IsPreorder EReal before] {pick : α → α → α}
    (h : Picks value before pick) {a : α} (ha : isNaN a = false) {l l' : List α}
    (hoccurs : ∀ v, Occurs value l' v → Occurs value l v) :
    before (value (l.foldl pick a)) (value (l'.foldl pick a)) := by
  obtain ⟨-, hstart, hall, -⟩ := h.foldl ha l
  obtain ⟨hnumber, -, -, hfound⟩ := h.foldl ha l'
  rcases hfound with heq | hmem
  · rw [heq]
    exact hstart
  · obtain ⟨b, hb, hbn, hvalue⟩ := hoccurs _ ⟨_, hmem, hnumber, rfl⟩
    exact hvalue ▸ hall b hb hbn

end Scalar

/-! ## 2. Axes -/

/-- The axes of machine space. -/
inductive Axis where
  | x
  | y
  | z
  deriving Repr, DecidableEq

theorem Axis.forall {P : Axis → Prop} : (∀ axis, P axis) ↔ P .x ∧ P .y ∧ P .z := by
  refine ⟨fun h => ⟨h .x, h .y, h .z⟩, fun ⟨hx, hy, hz⟩ axis => ?_⟩
  cases axis <;> assumption

section Boxes

variable {α : Type}

/-- The coordinate of a position along an axis. -/
def Point.along (p : Point α) : Axis → α
  | .x => p.x
  | .y => p.y
  | .z => p.z

variable [Scalar α]

/-- The position is in the box, or on one of its faces. -/
def Box.Contains (b : Box α) (p : Point α) : Prop :=
  ∀ axis, Scalar.le (b.low.along axis) (p.along axis) ∧ Scalar.le (p.along axis) (b.high.along axis)

/-- The coordinates of the position are numbers. -/
def Point.IsNumber (p : Point α) : Prop := ∀ axis, Scalar.isNaN (p.along axis) = false

namespace Box

theorem along_insert (b : Box α) (p : Point α) (axis : Axis) :
    (b.insert p).low.along axis = Scalar.least (b.low.along axis) (p.along axis) ∧
    (b.insert p).high.along axis = Scalar.greatest (b.high.along axis) (p.along axis) := by
  cases axis <;> exact ⟨rfl, rfl⟩

/-- Along one axis the faces are found by a search. -/
theorem along_foldl_insert (b : Box α) (points : List (Point α)) (axis : Axis) :
    (points.foldl insert b).low.along axis =
      (points.map (Point.along · axis)).foldl Scalar.least (b.low.along axis) ∧
    (points.foldl insert b).high.along axis =
      (points.map (Point.along · axis)).foldl Scalar.greatest (b.high.along axis) := by
  induction points generalizing b with
  | nil => exact ⟨rfl, rfl⟩
  | cons p points ih =>
    obtain ⟨hlow, hhigh⟩ := along_insert b p axis
    simp only [List.foldl_cons, List.map_cons, ih, hlow, hhigh, and_self]

theorem along_empty (axis : Axis) :
    (empty : Box α).low.along axis = Scalar.largest ∧
    (empty : Box α).high.along axis = -Scalar.largest := by
  cases axis <;> exact ⟨rfl, rfl⟩

theorem isValid_iff {b : Box α} :
    b.isValid ↔ ∀ axis, Scalar.isFinite (b.low.along axis) ∧ Scalar.isFinite (b.high.along axis) ∧
      Scalar.le (b.low.along axis) (b.high.along axis) := by
  simp only [isValid, Bool.and_eq_true, Axis.forall, Point.along]
  tauto

/-! ## 3. The faces -/

variable {value : α → EReal} {round : EReal → EReal} {points : List (Point α)} {p : Point α}
  (hr : Scalar.Rounding value round) (hg : Scalar.Ranged value)
include hr

/-- What is between two points of a box along every axis is in the box. -/
theorem contains_of_between {b : Box α} {q s : Point α} (hvalid : b.isValid) (hp : b.Contains p)
    (hs : b.Contains s) (hpn : p.IsNumber) (hqn : q.IsNumber) (hsn : s.IsNumber)
    (hlow : ∀ axis, value (p.along axis) ≤ value (q.along axis))
    (hhigh : ∀ axis, value (q.along axis) ≤ value (s.along axis)) : b.Contains q := by
  intro axis
  obtain ⟨hl, hh, -⟩ := isValid_iff.mp hvalid axis
  have hln := hr.isNaN_of_isFinite hl
  have hhn := hr.isNaN_of_isFinite hh
  rw [hr.le_iff hln (hqn axis), hr.le_iff (hqn axis) hhn]
  exact ⟨((hr.le_iff hln (hpn axis)).mp (hp axis).1).trans (hlow axis),
    (hhigh axis).trans ((hr.le_iff (hsn axis) hhn).mp (hs axis).2)⟩

include hg

/-- The lower face along an axis. -/
theorem low_around (points : List (Point α)) (axis : Axis) :
    Scalar.isNaN ((around points).low.along axis) = false ∧
    (∀ p ∈ points, Scalar.isNaN (p.along axis) = false →
      value ((around points).low.along axis) ≤ value (p.along axis)) ∧
    ((around points).low.along axis = Scalar.largest ∨
      ∃ p ∈ points, p.along axis = (around points).low.along axis) := by
  have hstart := hr.isNaN_of_isFinite hg.isFinite_largest
  obtain ⟨hnumber, -, hall, hmem⟩ :=
    (Scalar.picks_least hr hg).foldl hstart (points.map (Point.along · axis))
  rw [around, (along_foldl_insert empty points axis).1, (along_empty axis).1]
  exact ⟨hnumber, fun p hp hn => hall _ (List.mem_map_of_mem hp) hn, hmem.imp_right List.mem_map.mp⟩

/-- The upper face along an axis. -/
theorem high_around (points : List (Point α)) (axis : Axis) :
    Scalar.isNaN ((around points).high.along axis) = false ∧
    (∀ p ∈ points, Scalar.isNaN (p.along axis) = false →
      value (p.along axis) ≤ value ((around points).high.along axis)) ∧
    ((around points).high.along axis = -Scalar.largest ∨
      ∃ p ∈ points, p.along axis = (around points).high.along axis) := by
  have hstart := hr.isNaN_of_isFinite hg.isFinite_neg_largest
  obtain ⟨hnumber, -, hall, hmem⟩ :=
    (Scalar.picks_greatest hr hg).foldl hstart (points.map (Point.along · axis))
  rw [around, (along_foldl_insert empty points axis).2, (along_empty axis).2]
  exact ⟨hnumber, fun p hp hn => hall _ (List.mem_map_of_mem hp) hn, hmem.imp_right List.mem_map.mp⟩

/-- **No point is left out.** -/
theorem contains_around (hp : p ∈ points) (hn : p.IsNumber) : (around points).Contains p := by
  intro axis
  obtain ⟨hlow, hle, -⟩ := low_around hr hg points axis
  obtain ⟨hhigh, hge, -⟩ := high_around hr hg points axis
  exact ⟨(hr.le_iff hlow (hn axis)).mpr (hle p hp (hn axis)),
    (hr.le_iff (hn axis) hhigh).mpr (hge p hp (hn axis))⟩

/-- A valid box has no infinite coordinate in it. -/
theorem isFinite_of_isValid (hvalid : (around points).isValid) (hp : p ∈ points) {axis : Axis}
    (hn : Scalar.isNaN (p.along axis) = false) : Scalar.isFinite (p.along axis) := by
  obtain ⟨hl, hh, -⟩ := isValid_iff.mp hvalid axis
  obtain ⟨-, x, hx⟩ := hr.isFinite_iff.mp hl
  obtain ⟨-, y, hy⟩ := hr.isFinite_iff.mp hh
  refine hr.isFinite_of_between hn (x := x) (y := y) ?_ ?_
  · exact hx ▸ (low_around hr hg points axis).2.1 p hp hn
  · exact hy ▸ (high_around hr hg points axis).2.1 p hp hn

/-- Finite points, if there are any, have a valid box. -/
theorem isValid_around (hne : points ≠ [])
    (hfinite : ∀ p ∈ points, ∀ axis, Scalar.isFinite (p.along axis)) :
    (around points).isValid := by
  obtain ⟨p, hp⟩ := List.exists_mem_of_ne_nil points hne
  refine isValid_iff.mpr fun axis => ?_
  have hn := hr.isNaN_of_isFinite (hfinite p hp axis)
  obtain ⟨hln, hle, hlow⟩ := low_around hr hg points axis
  obtain ⟨hhn, hge, hhigh⟩ := high_around hr hg points axis
  refine ⟨?_, ?_, (hr.le_iff hln hhn).mpr ((hle p hp hn).trans (hge p hp hn))⟩
  · rcases hlow with heq | ⟨q, hq, heq⟩
    · exact heq ▸ hg.isFinite_largest
    · exact heq ▸ hfinite q hq axis
  · rcases hhigh with heq | ⟨q, hq, heq⟩
    · exact heq ▸ hg.isFinite_neg_largest
    · exact heq ▸ hfinite q hq axis

/-- A valid box is a box around something. -/
theorem exists_mem_of_isValid (hvalid : (around points).isValid) : ∃ p, p ∈ points := by
  refine List.exists_mem_of_ne_nil points ?_
  rintro rfl
  obtain ⟨hl, hh, hle⟩ := isValid_iff.mp hvalid .x
  rw [hr.le_iff (hr.isNaN_of_isFinite hl) (hr.isNaN_of_isFinite hh)] at hle
  exact absurd hg.neg_largest_lt_largest hle.not_gt

/-- **Each face is reached by a point**, if the box is valid. -/
theorem exists_low (hvalid : (around points).isValid) (hn : ∀ p ∈ points, p.IsNumber)
    (axis : Axis) :
    ∃ p ∈ points, value (p.along axis) = value ((around points).low.along axis) := by
  obtain ⟨-, hle, heq | ⟨p, hp, heq⟩⟩ := low_around hr hg points axis
  · -- the search has ended where it began, so all coordinates are the greatest
    obtain ⟨p, hp⟩ := exists_mem_of_isValid hr hg hvalid
    have hfinite := isFinite_of_isValid hr hg hvalid hp (hn p hp axis)
    refine ⟨p, hp, le_antisymm ?_ (hle p hp (hn p hp axis))⟩
    rw [heq]
    exact hg.le_largest hfinite
  · exact ⟨p, hp, congrArg value heq⟩

theorem exists_high (hvalid : (around points).isValid) (hn : ∀ p ∈ points, p.IsNumber)
    (axis : Axis) :
    ∃ p ∈ points, value (p.along axis) = value ((around points).high.along axis) := by
  obtain ⟨-, hge, heq | ⟨p, hp, heq⟩⟩ := high_around hr hg points axis
  · obtain ⟨p, hp⟩ := exists_mem_of_isValid hr hg hvalid
    have hfinite := isFinite_of_isValid hr hg hvalid hp (hn p hp axis)
    refine ⟨p, hp, le_antisymm (hge p hp (hn p hp axis)) ?_⟩
    rw [heq]
    exact hg.neg_largest_le hfinite
  · exact ⟨p, hp, congrArg value heq⟩

/-! ## 4. Boxes around the same numbers -/

variable {points' : List (Point α)}

/-- Along the axis, the same numbers occur among the coordinates of some points as among those of
others. -/
def SameAlong (value : α → EReal) (points points' : List (Point α)) (axis : Axis) : Prop :=
  ∀ v, Scalar.Occurs value (points.map (Point.along · axis)) v ↔
    Scalar.Occurs value (points'.map (Point.along · axis)) v

omit hr hg in
theorem SameAlong.refl (points : List (Point α)) (axis : Axis) :
    SameAlong value points points axis := fun _ => Iff.rfl

omit hr hg in
theorem SameAlong.append {more more' : List (Point α)} {axis : Axis}
    (h : SameAlong value points points' axis) (hmore : SameAlong value more more' axis) :
    SameAlong value (points ++ more) (points' ++ more') axis := by
  intro v
  have hv := h v
  have hvmore := hmore v
  simp only [Scalar.Occurs] at hv hvmore ⊢
  simp only [List.map_append, List.mem_append, or_and_right, exists_or, hv, hvmore]

/-- **A box depends only on the numbers that occur.** -/
theorem value_around_congr {axis : Axis} (hsame : SameAlong value points points' axis) :
    value ((around points).low.along axis) = value ((around points').low.along axis) ∧
      value ((around points).high.along axis) = value ((around points').high.along axis) := by
  have hlow := Scalar.picks_least hr hg
  have hhigh := Scalar.picks_greatest hr hg
  have hlargest := hr.isNaN_of_isFinite hg.isFinite_largest
  have hsmallest := hr.isNaN_of_isFinite hg.isFinite_neg_largest
  simp only [around, along_foldl_insert, along_empty]
  constructor
  · exact le_antisymm (hlow.foldl_before hlargest fun v => (hsame v).mpr)
      (hlow.foldl_before hlargest fun v => (hsame v).mp)
  · exact le_antisymm (hhigh.foldl_before hsmallest fun v => (hsame v).mp)
      (hhigh.foldl_before hsmallest fun v => (hsame v).mpr)

/-- Boxes around the same numbers are both valid, or neither is. -/
theorem isValid_around_congr (hsame : ∀ axis, SameAlong value points points' axis) :
    (around points).isValid = (around points').isValid := by
  rw [Bool.eq_iff_iff, isValid_iff, isValid_iff]
  refine forall_congr' fun axis => ?_
  obtain ⟨hlow, hhigh⟩ := value_around_congr hr hg (hsame axis)
  obtain ⟨hln, -⟩ := low_around hr hg points axis
  obtain ⟨hhn, -⟩ := high_around hr hg points axis
  obtain ⟨hln', -⟩ := low_around hr hg points' axis
  obtain ⟨hhn', -⟩ := high_around hr hg points' axis
  simp only [hr.isFinite_iff, hr.le_iff hln hhn, hr.le_iff hln' hhn', hln, hhn, hln', hhn', hlow,
    hhigh]

end Box

end Boxes

end Motion
