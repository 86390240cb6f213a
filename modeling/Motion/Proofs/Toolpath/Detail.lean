/-
# Levels of detail

How finely an arc is divided is chosen for each drawing, so drawings of one tool path in different
resolutions have to fit together.  They do for two reasons.

* **Finer divisions contain the coarser ones** (`Arc.nests`).  The angle of a vertex is computed
  from a quotient of whole numbers, and equal quotients are the same value wherever fractions can be
  expanded (`Scalar.Fractions`): in double precision, where each of them is rounded once, and in
  exact arithmetic.  Adding up steps would not do.
* **The ends stay where they are** (`Exact.head?_vertices`, `Exact.getLast?_vertices`), in exact
  arithmetic.  What is joined to a strip depends on the ends alone, so the strips consist of the
  same segments in every resolution.
-/
import Motion.Proofs.Number.Exact
import Motion.Proofs.Number.Whole
import Motion.Proofs.Toolpath.Groups

namespace Motion

variable {α : Type} [Scalar α]

/-! ## 1. The vertices of an arc -/

namespace Arc

variable {n m k : ℕ}

theorem vertices_max (a : Arc α) (n : ℕ) : a.vertices n = a.vertices (max n 1) := by
  simp [vertices]

theorem length_vertices (a : Arc α) (hn : 0 < n) : (a.vertices n).length = n + 1 := by
  have hsteps : max n 1 = n := max_eq_left hn
  simp [vertices, hsteps]

theorem getElem?_vertices_eq_some (a : Arc α) (hn : 0 < n) {p : Point α} :
    (a.vertices n)[k]? = some p ↔ k ≤ n ∧ a.vertex n k = p := by
  have hvertices : a.vertices n = (List.range (max n 1 + 1)).map (a.vertex (max n 1)) := rfl
  rw [hvertices, max_eq_left (Nat.one_le_iff_ne_zero.mpr hn.ne'), List.getElem?_map,
    Option.map_eq_some_iff]
  constructor
  · rintro ⟨j, hj, rfl⟩
    obtain ⟨hlt, rfl⟩ := List.getElem?_eq_some_iff.mp hj
    rw [List.length_range] at hlt
    rw [List.getElem_range]
    exact ⟨Nat.le_of_lt_succ hlt, rfl⟩
  · rintro ⟨hk, rfl⟩
    exact ⟨k, List.getElem?_range (Nat.lt_succ_of_le hk), rfl⟩

/-- The division of an arc in `n` steps, and where it is found among `n * m` steps. -/
structure Nests (a : Arc α) (n m : ℕ) : Prop where
  length : ((Segment.arc a).vertices n).length = n + 1
  level : ∀ p ∈ (Segment.arc a).vertices n, p.z = a.z
  vertex : ∀ k ≤ n, ∃ p, ((Segment.arc a).vertices n)[k]? = some p ∧
    ((Segment.arc a).vertices (n * m))[k * m]? = some p

/-- **Finer divisions contain the coarser ones**, where fractions can be expanded. -/
theorem nests (h : Scalar.Fractions α) (a : Arc α) (hn : 0 < n) (hm : 0 < m)
    (hsize : n * m < UInt32.size) : a.Nests n m := by
  refine ⟨a.length_vertices hn, ?level, ?vertex⟩
  case level =>
    intro p hp
    obtain ⟨k, -, rfl⟩ := List.mem_map.mp hp
    rfl
  case vertex =>
    intro k hk
    have hsame : a.vertex (n * m) (k * m) = a.vertex n k := by
      rw [Arc.vertex, Arc.vertex, h hk hn hm hsize]
    refine ⟨a.vertex n k, (a.getElem?_vertices_eq_some hn).mpr ⟨hk, rfl⟩, ?_⟩
    exact (a.getElem?_vertices_eq_some (Nat.mul_pos hn hm)).mpr ⟨Nat.mul_le_mul_right m hk, hsame⟩

end Arc

/-- No steps are one step. -/
theorem Segment.vertices_zero (s : Segment α) : s.vertices 0 = s.vertices 1 := by
  cases s <;> rfl

/-! ## 2. The ends, in exact arithmetic -/

namespace Exact

theorem fractions_exact : @Scalar.Fractions ℝ scalar := by
  intro k n m _ _ hm _
  have hne : (m : ℝ) ≠ 0 := Nat.cast_ne_zero.mpr hm.ne'
  change ((k * m : ℕ) : ℝ) / (n * m : ℕ) = k / n
  rw [Nat.cast_mul, Nat.cast_mul, mul_div_mul_right _ _ hne]

/-- The vertices of a segment, exactly. -/
noncomputable abbrev verticesOf (n : ℕ) (s : Segment ℝ) : List (Point ℝ) :=
  @Segment.vertices ℝ scalar n s

/-- Where a segment starts, exactly, as far as it says so itself. -/
noncomputable abbrev startPoint? (s : Segment ℝ) : Option (Point ℝ) :=
  @Segment.startPoint? ℝ scalar s

/-- The strips of some segments, exactly. -/
noncomputable abbrev strips (n : ℕ) (segments : List (Segment ℝ)) : List (List (Point ℝ)) :=
  @Motion.strips ℝ scalar n segments

variable {s : Segment ℝ}

/-- A cut is drawn from where it starts. -/
theorem head?_vertices (hs : s.isCutting) (n : ℕ) : (verticesOf n s).head? = startPoint? s := by
  cases s with
  | move stop => cases hs
  | line start stop => rfl
  | arc a =>
    have hsteps : 0 < max n 1 := Nat.le_max_right n 1
    have hvertex : @Arc.vertex ℝ scalar a (max n 1) 0 = @Arc.pointAt ℝ scalar a a.startAngle := by
      have hangle : a.startAngle + @Arc.sweep ℝ scalar a * ((0 : ℕ) / (max n 1 : ℕ)) =
          a.startAngle := by
        rw [Nat.cast_zero, zero_div, mul_zero, add_zero]
      exact congrArg (@Arc.pointAt ℝ scalar a) hangle
    have hmax : verticesOf n (.arc a) = @Arc.vertices ℝ scalar a (max n 1) :=
      @Arc.vertices_max ℝ scalar a n
    rw [hmax, List.head?_eq_getElem?]
    exact (@Arc.getElem?_vertices_eq_some ℝ scalar _ _ a hsteps _).mpr ⟨Nat.zero_le _, hvertex⟩

/-- It is drawn to where it ends, and a move has no other vertex than that. -/
theorem getLast?_vertices (s : Segment ℝ) (n : ℕ) :
    (verticesOf n s).getLast? = some (@Segment.endPoint ℝ scalar s) := by
  cases s with
  | move stop => rfl
  | line start stop => rfl
  | arc a =>
    have hsteps : 0 < max n 1 := Nat.le_max_right n 1
    have hvertex : @Arc.vertex ℝ scalar a (max n 1) (max n 1) =
        @Arc.pointAt ℝ scalar a a.endAngle := by
      have hangle : a.startAngle + @Arc.sweep ℝ scalar a * ((max n 1 : ℕ) / (max n 1 : ℕ)) =
          a.endAngle := by
        rw [div_self (Nat.cast_ne_zero.mpr hsteps.ne'), mul_one]
        exact add_sub_cancel a.startAngle a.endAngle
      exact congrArg (@Arc.pointAt ℝ scalar a) hangle
    have hmax : verticesOf n (.arc a) = @Arc.vertices ℝ scalar a (max n 1) :=
      @Arc.vertices_max ℝ scalar a n
    rw [hmax, List.getLast?_eq_getElem?, @Arc.length_vertices ℝ scalar _ a hsteps,
      Nat.add_sub_cancel]
    exact (@Arc.getElem?_vertices_eq_some ℝ scalar _ _ a hsteps _).mpr ⟨le_rfl, hvertex⟩

/-- Whether two segments meet does not depend on the resolution. -/
theorem meets_congr (n n' : ℕ) (s t : Segment ℝ) :
    @Segment.meets ℝ scalar n s t = @Segment.meets ℝ scalar n' s t := by
  have hhead : (verticesOf n t).head? = (verticesOf n' t).head? := by
    cases ht : t.isCutting with
    | true => rw [head?_vertices ht, head?_vertices ht]
    | false =>
      cases t with
      | move stop => rfl
      | line start stop => cases ht
      | arc a => cases ht
  unfold Segment.meets
  rw [getLast?_vertices s n, getLast?_vertices s n', hhead]

theorem groups_congr (n n' : ℕ) (segments : List (Segment ℝ)) :
    @groups ℝ scalar n segments = @groups ℝ scalar n' segments := by
  have hmeets : @Segment.meets ℝ scalar n = @Segment.meets ℝ scalar n' := by
    funext s t
    exact meets_congr n n' s t
  unfold groups
  rw [hmeets]

end Exact

/-! ## 3. Levels of detail -/

/-- **Levels of detail nest.**

An arc in `n` steps has `n + 1` vertices, all at the height of the arc, and the `k`-th of them is
the `k * m`-th of those in `n * m` steps, in double precision down to the last bit, and in exact
arithmetic as well.  No steps are one step.  In exact arithmetic a cut is drawn from its start to
its end in every resolution, so two segments meet in every resolution or in none, and the same
segments are joined to strips. -/
theorem levels_of_detail_nest :
    (∀ (a : Arc Float) (n m : ℕ), 0 < n → 0 < m → n * m < UInt32.size → a.Nests n m) ∧
    (∀ (a : Arc ℝ) (n m : ℕ), 0 < n → 0 < m → n * m < UInt32.size →
      @Arc.Nests ℝ Exact.scalar a n m) ∧
    (∀ s : Segment Float, s.vertices 0 = s.vertices 1) ∧
    (∀ s : Segment ℝ, Exact.verticesOf 0 s = Exact.verticesOf 1 s) ∧
    (∀ (s : Segment ℝ) (n : ℕ), s.isCutting →
      (Exact.verticesOf n s).head? = Exact.startPoint? s ∧
      (Exact.verticesOf n s).getLast? = some (@Segment.endPoint ℝ Exact.scalar s)) ∧
    (∀ (s t : Segment ℝ) (n n' : ℕ),
      @Segment.meets ℝ Exact.scalar n s t = @Segment.meets ℝ Exact.scalar n' s t) ∧
    ∀ segments : List (Segment ℝ), ∃ gs : List (List (Segment ℝ)),
      gs.flatten = segments.filter Segment.isCutting ∧
      ∀ n, Exact.strips n segments = gs.map (@joined ℝ Exact.scalar n) := by
  refine ⟨?doubles, ?exactly, Segment.vertices_zero, @Segment.vertices_zero ℝ Exact.scalar, ?ends,
    ?meet, ?strips⟩
  case doubles =>
    intro a n m hn hm hsize
    exact a.nests Double.fractions_double hn hm hsize
  case exactly =>
    intro a n m hn hm hsize
    exact @Arc.nests ℝ Exact.scalar _ _ Exact.fractions_exact a hn hm hsize
  case ends =>
    intro s n hs
    exact ⟨Exact.head?_vertices hs n, Exact.getLast?_vertices s n⟩
  case meet =>
    intro s t n n'
    exact Exact.meets_congr n n' s t
  case strips =>
    intro segments
    refine ⟨@groups ℝ Exact.scalar 1 segments, @flatten_groups ℝ Exact.scalar 1 segments, ?_⟩
    intro n
    rw [Exact.groups_congr 1 n]
    exact @strips_eq_map_joined ℝ Exact.scalar n segments

/-- Half a circle in three steps, and where its second vertex is among six. -/
theorem levels_of_detail_nest_three_of_six :
    let a : Arc Float := ⟨⟨0, 0⟩, 1, 5, 0, Float.ofBits 0x400921FB54442D18, false⟩
    ((Segment.arc a).vertices 3).length = 4 ∧
      ∃ p, ((Segment.arc a).vertices 3)[1]? = some p ∧
        ((Segment.arc a).vertices 6)[2]? = some p ∧ p.z = 5 := by
  intro a
  obtain ⟨hdoubles, -⟩ := levels_of_detail_nest
  obtain ⟨hlength, hlevel, hvertex⟩ := hdoubles a 3 2 (by decide) (by decide) (by decide)
  obtain ⟨p, hthree, hsix⟩ := hvertex 1 (by decide)
  exact ⟨hlength, p, hthree, hsix, hlevel p (List.mem_of_getElem? hthree)⟩

end Motion
