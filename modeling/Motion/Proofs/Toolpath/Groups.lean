/-
# What the strips are

Strips are built in one pass, with one strip pending: a segment lengthens it, or it is finished and
another one begins, and at three places it is finished only if it is long enough.  This module says
what comes out without the pass.

The cutting segments fall into groups.  First the moves divide them, and then every place does where
a segment does not start within reach of the last vertex of the one before it (`groups`).  Each
group is one strip: the vertices of its first segment, followed by those of the others without the
first vertex of each (`joined`).  So nothing is dropped by the guards, because a cutting segment has
two vertices at least, and nothing is drawn twice, because the vertex that is left out is the one
where two segments meet.

The invariant of the pass is that the pending strip is `joined` for a group that some segment ends
(`drawn_foldl_eq`).  Its last vertex is then the last one of that segment, which is what the next
segment is compared with.
-/
import Mathlib.Algebra.Ring.Nat
import Mathlib.Data.List.SplitBy
import Motion.Proofs.Toolpath.Growth

namespace Motion

/-! ## 1. Runs of a list -/

section Runs

variable {β : Type}

/-- A group ends behind the elements of a list. -/
def Divides (gs : List (List β)) (l : List β) : Prop := ∃ k, (gs.take k).flatten = l

/-- A run that starts with two related elements is the run from the second one on, and the first
one before it. -/
theorem splitBy_cons_cons (r : β → β → Bool) (a b : β) (l : List β) :
    (a :: b :: l).splitBy r =
      if r a b then ((b :: l).splitBy r).modifyHead (a :: ·) else [a] :: (b :: l).splitBy r := by
  cases hab : r a b with
  | false =>
    rw [if_neg Bool.false_ne_true]
    exact List.splitBy_append_cons (l := [a]) l (by simpa using hab)
  | true =>
    have hhead := List.head_head_splitBy r (List.cons_ne_nil b l)
    rw [if_pos rfl]
    cases hruns : (b :: l).splitBy r with
    | nil => exact absurd (List.splitBy_eq_nil.mp hruns) (List.cons_ne_nil b l)
    | cons g gs =>
      obtain ⟨hflatten, hnil, hchain, hlast⟩ := List.splitBy_eq_iff.mp hruns
      have hg : g ≠ [] := fun h => hnil (h ▸ List.mem_cons_self)
      have hb : g.head hg = b := by simpa [hruns] using hhead
      refine List.splitBy_eq_iff.mpr ⟨by simp [hflatten], ?_, ?_, ?_⟩
      · intro hmem
        rcases List.mem_cons.mp hmem with h | h
        · cases h
        · exact hnil (List.mem_cons_of_mem g h)
      · intro m hm
        rcases List.mem_cons.mp hm with rfl | hm
        · refine List.isChain_cons.mpr ⟨fun c hc => ?_, hchain g List.mem_cons_self⟩
          rw [List.head?_eq_some_head hg, hb] at hc
          obtain rfl : b = c := by simpa using hc
          exact hab
        · exact hchain m (List.mem_cons_of_mem g hm)
      · obtain ⟨hnext, hrest⟩ := List.isChain_cons.mp hlast
        refine List.isChain_cons.mpr ⟨fun m hm => ?_, hrest⟩
        obtain ⟨_, hne, heq⟩ := hnext m hm
        exact ⟨List.cons_ne_nil a g, hne, by rwa [List.getLast_cons hg]⟩

theorem divides_cons {gs : List (List β)} {l : List β} (hl : l ≠ []) (g : List β) :
    Divides (g :: gs) (g ++ l) ↔ Divides gs l := by
  constructor
  · rintro ⟨k, hk⟩
    cases k with
    | zero => simp_all
    | succ k => exact ⟨k, by simpa using hk⟩
  · rintro ⟨k, hk⟩
    exact ⟨k + 1, by simp [hk]⟩

/-- A longer first group ends at the same places. -/
theorem divides_modifyHead {gs : List (List β)} {l : List β} (hl : l ≠ []) (a : β) :
    Divides (gs.modifyHead (a :: ·)) (a :: l) ↔ Divides gs l := by
  cases gs with
  | nil =>
    refine iff_of_false ?_ ?_
    · rintro ⟨k, hk⟩
      simp at hk
    · rintro ⟨k, hk⟩
      exact hl (by simpa using hk.symm)
  | cons g gs =>
    constructor
    · rintro ⟨k, hk⟩
      cases k with
      | zero => simp at hk
      | succ k => exact ⟨k + 1, by simpa using hk⟩
    · rintro ⟨k, hk⟩
      cases k with
      | zero => exact absurd hk.symm hl
      | succ k => exact ⟨k + 1, by simpa using hk⟩

end Runs

variable {α : Type} [Scalar α]

/-! ## 2. Groups and their strips -/

namespace Segment

/-- A segment starts where another one ends, within the distance of a join. -/
def meets (n : Nat) (s t : Segment α) : Bool :=
  match (s.vertices n).getLast?, (t.vertices n).head? with
  | some p, some q => Scalar.le (p.distance q) Drawing.joinDistance
  | _, _ => false

theorem two_le_length_vertices {s : Segment α} (h : s.isCutting) (n : Nat) :
    2 ≤ (s.vertices n).length := by
  cases s with
  | move stop => cases h
  | line start stop => simp [vertices]
  | arc a =>
    have hsteps : 1 ≤ max n 1 := Nat.le_max_right n 1
    simp only [vertices, Arc.vertices, List.length_map, List.length_range]
    omega

/-- The vertices of a cutting segment: one to join at, and others. -/
theorem exists_vertices {s : Segment α} (h : s.isCutting) (n : Nat) :
    ∃ p rest, s.vertices n = p :: rest ∧ rest ≠ [] := by
  have hlength := two_le_length_vertices h n
  cases hv : s.vertices n with
  | nil => simp [hv] at hlength
  | cons p rest =>
    refine ⟨p, rest, rfl, fun hrest => ?_⟩
    simp [hv, hrest] at hlength

end Segment

/-- The cutting segments in groups: a group ends at a move, and where the next segment does not
start within reach. -/
def groups (n : Nat) (segments : List (Segment α)) : List (List (Segment α)) :=
  (segments.splitOnP fun s => !s.isCutting).flatMap (List.splitBy (Segment.meets n))

/-- The strip of a group. -/
def joined (n : Nat) : List (Segment α) → List (Point α)
  | [] => []
  | s :: rest => s.vertices n ++ rest.flatMap fun t => (t.vertices n).tail

variable {n : Nat} {s t : Segment α} {rest : List (Segment α)}

@[simp] theorem groups_nil : groups n ([] : List (Segment α)) = [] := rfl

theorem groups_cons_of_move (h : s.isCutting = false) :
    groups n (s :: rest) = groups n rest := by
  simp [groups, List.splitOnP_cons_eq_if_modifyHead, h]

theorem groups_singleton (h : s.isCutting) : groups n [s] = [[s]] := by
  simp [groups, List.splitOnP_cons_eq_if_modifyHead, h, List.splitBy, List.splitBy.loop]

/-- A move ends the group. -/
theorem groups_cons_cons_of_move (hs : s.isCutting) (ht : t.isCutting = false) :
    groups n (s :: t :: rest) = [s] :: groups n rest := by
  simp [groups, List.splitOnP_cons_eq_if_modifyHead, hs, ht, List.splitBy, List.splitBy.loop]

/-- **Between two cutting segments** only the distance counts. -/
theorem groups_cons_cons (hs : s.isCutting) (ht : t.isCutting) :
    groups n (s :: t :: rest) =
      if s.meets n t then (groups n (t :: rest)).modifyHead (s :: ·)
      else [s] :: groups n (t :: rest) := by
  obtain ⟨l, ls, hsplit⟩ := List.exists_cons_of_ne_nil
    (List.splitOnP_ne_nil (fun s : Segment α => !s.isCutting) rest)
  have hne : (t :: l).splitBy (Segment.meets n) ≠ [] :=
    List.splitBy_ne_nil.mpr (List.cons_ne_nil t l)
  simp only [groups, List.splitOnP_cons_eq_if_modifyHead, hs, ht, hsplit, Bool.not_true,
    Bool.false_eq_true, if_false, List.modifyHead_cons, List.flatMap_cons, splitBy_cons_cons]
  split
  · cases hruns : (t :: l).splitBy (Segment.meets n) with
    | nil => exact absurd hruns hne
    | cons g gs => rfl
  · rfl

/-- The groups are the cutting segments, in order. -/
theorem flatten_groups (n : Nat) (segments : List (Segment α)) :
    (groups n segments).flatten = segments.filter Segment.isCutting := by
  induction segments with
  | nil => rfl
  | cons s rest ih =>
    cases hs : s.isCutting with
    | false => rw [groups_cons_of_move hs, ih, List.filter_cons_of_neg (by simp [hs])]
    | true =>
      rw [List.filter_cons_of_pos hs, ← ih]
      cases rest with
      | nil => rw [groups_singleton hs]; rfl
      | cons t rest =>
        cases ht : t.isCutting with
        | false => rw [groups_cons_cons_of_move hs ht, groups_cons_of_move ht]; rfl
        | true =>
          rw [groups_cons_cons hs ht]
          split
          · cases hgroups : groups n (t :: rest) with
            | nil => simp [hgroups, List.filter_cons_of_pos ht] at ih
            | cons g gs => rfl
          · rfl

theorem nil_notMem_groups (n : Nat) (segments : List (Segment α)) : [] ∉ groups n segments := by
  intro h
  obtain ⟨l, -, hl⟩ := List.mem_flatMap.mp h
  exact List.nil_notMem_splitBy _ _ hl

theorem isCutting_of_mem_groups {segments : List (Segment α)} {g : List (Segment α)}
    (hg : g ∈ groups n segments) (hs : s ∈ g) : s.isCutting := by
  have hmem : s ∈ (groups n segments).flatten := List.mem_flatten.mpr ⟨g, hg, hs⟩
  rw [flatten_groups] at hmem
  exact (List.mem_filter.mp hmem).2

/-! ## 3. The pass -/

/-- The last vertex of a strip is that of its last segment. -/
theorem getLast?_joined (hs : s.isCutting) (g : List (Segment α)) :
    (joined n (g ++ [s])).getLast? = (s.vertices n).getLast? := by
  obtain ⟨p, rest, hv, hrest⟩ := Segment.exists_vertices hs n
  obtain ⟨q, rest, rfl⟩ := List.exists_cons_of_ne_nil hrest
  cases g with
  | nil => simp [joined]
  | cons t g => simp [joined, hv, List.getLast?_cons]

theorem joined_concat (g : List (Segment α)) (s t : Segment α) :
    joined n (g ++ [s] ++ [t]) = joined n (g ++ [s]) ++ (t.vertices n).tail := by
  cases g <;> simp [joined]

/-- A strip has two vertices at least. -/
theorem two_le_length_joined {g : List (Segment α)} (hg : g ≠ []) (h : ∀ s ∈ g, s.isCutting) :
    2 ≤ (joined n g).length := by
  cases g with
  | nil => exact absurd rfl hg
  | cons s rest =>
    have hs := Segment.two_le_length_vertices (h s List.mem_cons_self) n
    rw [joined, List.length_append]
    omega

/-- One vertex is left out for every join. -/
theorem length_joined_add {g : List (Segment α)} (h : ∀ s ∈ g, s.isCutting) :
    (joined n g).length + (g.length - 1) = (g.map fun s => (s.vertices n).length).sum := by
  have htails : ∀ l : List (Segment α), (∀ s ∈ l, s.isCutting) →
      (l.flatMap fun s => (s.vertices n).tail).length + l.length =
        (l.map fun s => (s.vertices n).length).sum := by
    intro l hl
    induction l with
    | nil => rfl
    | cons s rest ih =>
      have hs := Segment.two_le_length_vertices (hl s List.mem_cons_self) n
      have hrest := ih fun t ht => hl t (List.mem_cons_of_mem s ht)
      simp only [List.flatMap_cons, List.length_append, List.length_tail, List.length_cons,
        List.map_cons, List.sum_cons]
      omega
  cases g with
  | nil => rfl
  | cons s rest =>
    have hrest := htails rest fun t ht => h t (List.mem_cons_of_mem s ht)
    simp only [joined, List.length_append, List.length_cons, List.map_cons, List.sum_cons]
    omega

namespace Drawing

theorem add_of_move (h : t.isCutting = false) (d : Drawing α) : d.add n t = d.finish := by
  simp [add, h]

/-- A strip that ends with a segment goes on with the segments that it meets. -/
theorem add_of_meets (hs : s.isCutting) (ht : t.isCutting) (h : s.meets n t)
    (finished : Array (List (Point α))) (g : List (Segment α)) :
    add n ⟨finished, (joined n (g ++ [s])).toArray⟩ t =
      ⟨finished, (joined n (g ++ [s] ++ [t])).toArray⟩ := by
  obtain ⟨p, rest, hv, -⟩ := Segment.exists_vertices ht n
  have hends : endsAt ⟨finished, (joined n (g ++ [s])).toArray⟩ p := by
    rw [endsAt, List.back?_toArray, getLast?_joined hs]
    simp only [Segment.meets, hv, List.head?_cons] at h
    split at h
    · rename_i q p' hq hp
      cases hp
      rwa [hq]
    · cases h
  rw [joined_concat, hv]
  simp [add, ht, hv, hends]

/-- Otherwise it is finished, and another one begins. -/
theorem add_of_not_meets (ht : t.isCutting) {d : Drawing α}
    (h : ∀ p, (t.vertices n).head? = some p → d.endsAt p = false) :
    d.add n t = ⟨d.finish.finished, (joined n [t]).toArray⟩ := by
  obtain ⟨p, rest, hv, -⟩ := Segment.exists_vertices ht n
  simp [add, ht, hv, h p (by simp [hv]), joined]

theorem endsAt_eq_false (hs : s.isCutting) (h : s.meets n t = false)
    (finished : Array (List (Point α))) (g : List (Segment α)) {p : Point α}
    (hp : (t.vertices n).head? = some p) :
    endsAt ⟨finished, (joined n (g ++ [s])).toArray⟩ p = false := by
  rw [endsAt, List.back?_toArray, getLast?_joined hs]
  rw [Segment.meets, hp] at h
  split
  · rename_i q hq
    rwa [hq] at h
  · rfl

/-- A strip that ends with a segment is long enough to be finished. -/
theorem finish_joined (hs : s.isCutting) (finished : Array (List (Point α)))
    {g : List (Segment α)} (hg : ∀ t ∈ g, t.isCutting) :
    finish ⟨finished, (joined n (g ++ [s])).toArray⟩ =
      ⟨finished.push (joined n (g ++ [s])), #[]⟩ := by
  have hlength : 2 ≤ (joined n (g ++ [s])).length :=
    two_le_length_joined (by simp)
      (List.forall_mem_append.mpr ⟨hg, List.forall_mem_singleton.mpr hs⟩)
  simp [finish, Nat.lt_of_succ_le hlength]

/-- **The pass.**  From a drawing without a pending strip the rest adds the strips of its groups.
From one whose pending strip is that of a group which ends with `s`, it adds the strips of the
groups of the rest from `s` on, with the group before `s` in front of the first of them. -/
theorem drawn_foldl_eq (n : Nat) (rest : List (Segment α)) :
    (∀ finished : Array (List (Point α)),
      (rest.foldl (add n) ⟨finished, #[]⟩).drawn =
        finished.toList ++ (groups n rest).map (joined n)) ∧
    ∀ (finished : Array (List (Point α))) (g : List (Segment α)) (s : Segment α),
      (∀ t ∈ g, t.isCutting) → s.isCutting →
      (rest.foldl (add n) ⟨finished, (joined n (g ++ [s])).toArray⟩).drawn =
        finished.toList ++ ((groups n (s :: rest)).modifyHead (g ++ ·)).map (joined n) := by
  induction rest with
  | nil =>
    refine ⟨fun finished => by simp [drawn, finish], fun finished g s hg hs => ?_⟩
    rw [List.foldl_nil, drawn, finish_joined hs finished hg, groups_singleton hs]
    simp
  | cons t rest ih =>
    obtain ⟨hempty, hpending⟩ := ih
    constructor
    · intro finished
      cases ht : t.isCutting with
      | false =>
        rw [List.foldl_cons, add_of_move ht, groups_cons_of_move ht]
        exact hempty finished
      | true =>
        have hadd : add n ⟨finished, #[]⟩ t = ⟨finished, (joined n ([] ++ [t])).toArray⟩ :=
          add_of_not_meets ht fun p _ => rfl
        rw [List.foldl_cons, hadd, hpending finished [] t (by simp) ht]
        cases groups n (t :: rest) <;> simp
    · intro finished g s hg hs
      cases ht : t.isCutting with
      | false =>
        rw [List.foldl_cons, add_of_move ht, finish_joined hs finished hg, hempty,
          groups_cons_cons_of_move hs ht]
        simp
      | true =>
        rw [List.foldl_cons, groups_cons_cons hs ht]
        cases hmeets : s.meets n t with
        | true =>
          have hg' : ∀ u ∈ g ++ [s], u.isCutting :=
            List.forall_mem_append.mpr ⟨hg, List.forall_mem_singleton.mpr hs⟩
          rw [add_of_meets hs ht hmeets, hpending finished (g ++ [s]) t hg' ht, if_pos rfl]
          cases groups n (t :: rest) <;> simp
        | false =>
          rw [add_of_not_meets ht fun p hp => endsAt_eq_false hs hmeets finished g hp,
            finish_joined hs finished hg, if_neg Bool.false_ne_true]
          have hrest := hpending (finished.push (joined n (g ++ [s]))) [] t (by simp) ht
          rw [List.nil_append] at hrest
          rw [hrest]
          cases groups n (t :: rest) <;> simp

end Drawing

/-! ## 4. The strips of a tool path -/

/-- There is one strip for each group. -/
theorem strips_eq_map_joined (n : Nat) (segments : List (Segment α)) :
    strips n segments = (groups n segments).map (joined n) := by
  have hpass := (Drawing.drawn_foldl_eq n segments).1 #[]
  rwa [List.nil_append] at hpass

/-- The first group is one segment exactly if a move follows before the next one, or the next one
starts out of reach. -/
theorem divides_groups_singleton_iff {moves after : List (Segment α)} (hs : s.isCutting)
    (ht : t.isCutting) (hmoves : ∀ u ∈ moves, u.isCutting = false) :
    Divides (groups n (s :: (moves ++ t :: after))) [s] ↔ moves ≠ [] ∨ s.meets n t = false := by
  have hsingle {gs : List (List (Segment α))} : Divides ([s] :: gs) [s] := ⟨1, by simp⟩
  cases moves with
  | cons u moves =>
    rw [List.cons_append, groups_cons_cons_of_move hs (hmoves u List.mem_cons_self)]
    exact iff_of_true hsingle (Or.inl (List.cons_ne_nil u moves))
  | nil =>
    rw [List.nil_append, groups_cons_cons hs ht]
    cases hmeets : s.meets n t with
    | false => exact iff_of_true hsingle (Or.inr rfl)
    | true =>
      refine iff_of_false ?_ (by simp)
      rintro ⟨k, hk⟩
      have hflatten := flatten_groups n (t :: after)
      rw [List.filter_cons_of_pos ht] at hflatten
      -- the first group is `s` and at least one segment more
      cases hgroups : groups n (t :: after) with
      | nil => simp [hgroups] at hflatten
      | cons g gs =>
        have hg : g ≠ [] := by
          rintro rfl
          exact nil_notMem_groups n (t :: after) (hgroups ▸ List.mem_cons_self)
        cases k with
        | zero => simp at hk
        | succ k => simp [hgroups, hg] at hk

/-- A cutting segment in front changes nothing about where later groups end. -/
theorem divides_groups_cons_iff {l : List (Segment α)} (hs : s.isCutting) (hl : l ≠ []) :
    Divides (groups n (s :: t :: rest)) (s :: l) ↔ Divides (groups n (t :: rest)) l := by
  cases ht : t.isCutting with
  | false =>
    rw [groups_cons_cons_of_move hs ht, groups_cons_of_move ht]
    exact divides_cons hl [s]
  | true =>
    rw [groups_cons_cons hs ht]
    split
    · exact divides_modifyHead hl s
    · exact divides_cons hl [s]

/-- A group ends behind a cutting segment exactly if a move follows before the next one, or the next
one starts out of reach. -/
theorem divides_groups_iff {before after moves : List (Segment α)} (hs : s.isCutting)
    (ht : t.isCutting) (hmoves : ∀ u ∈ moves, u.isCutting = false) :
    Divides (groups n (before ++ s :: (moves ++ t :: after)))
        ((before ++ [s]).filter Segment.isCutting) ↔
      moves ≠ [] ∨ s.meets n t = false := by
  induction before with
  | nil =>
    rw [List.nil_append, List.nil_append, List.filter_cons_of_pos hs, List.filter_nil]
    exact divides_groups_singleton_iff hs ht hmoves
  | cons u before ih =>
    have hne : (before ++ [s]).filter Segment.isCutting ≠ [] := by simp [List.filter_append, hs]
    rw [List.cons_append, List.cons_append]
    cases hu : u.isCutting with
    | false => rwa [groups_cons_of_move hu, List.filter_cons_of_neg (by simp [hu])]
    | true =>
      rw [List.filter_cons_of_pos hu, ← ih]
      obtain ⟨v, rest, hrest⟩ : ∃ v rest, before ++ s :: (moves ++ t :: after) = v :: rest := by
        cases before <;> simp
      rw [hrest]
      exact divides_groups_cons_iff hu hne

/-- **The strips are those of the groups.**

The groups are the cutting segments, in order and each in one group, and no group is empty.  Between
two successive cutting segments a group ends exactly if there is a move between them or the second
one does not start within a millionth of the last vertex of the first.  So there is one strip for
each group, each with two vertices or more, and the number of all vertices is that of the segments
less one for each join. -/
theorem strips_eq_groups (n : Nat) (segments : List (Segment α)) :
    strips n segments = (groups n segments).map (joined n) ∧
    ((groups n segments).flatten = segments.filter Segment.isCutting ∧ [] ∉ groups n segments) ∧
    (∀ (before : List (Segment α)) (s : Segment α) (moves : List (Segment α)) (t : Segment α)
        (after : List (Segment α)), segments = before ++ s :: (moves ++ t :: after) →
      s.isCutting → t.isCutting → (∀ u ∈ moves, u.isCutting = false) →
      (Divides (groups n segments) ((before ++ [s]).filter Segment.isCutting) ↔
        moves ≠ [] ∨ s.meets n t = false)) ∧
    (∀ strip ∈ strips n segments, 2 ≤ strip.length) ∧
    (strips n segments).flatten.length + ((groups n segments).map fun g => g.length - 1).sum =
      ((segments.filter Segment.isCutting).map fun s => (s.vertices n).length).sum := by
  have hstrips := strips_eq_map_joined n segments
  have hcutting : ∀ g ∈ groups n segments, ∀ s ∈ g, s.isCutting :=
    fun g hg s hs => isCutting_of_mem_groups hg hs
  refine ⟨hstrips, ⟨flatten_groups n segments, nil_notMem_groups n segments⟩, ?_, ?_, ?_⟩
  · rintro before s moves t after rfl hs ht hmoves
    exact divides_groups_iff hs ht hmoves
  · intro strip hstrip
    rw [hstrips] at hstrip
    obtain ⟨g, hg, rfl⟩ := List.mem_map.mp hstrip
    refine two_le_length_joined (fun hnil => ?_) (hcutting g hg)
    exact nil_notMem_groups n segments (hnil ▸ hg)
  · rw [hstrips, ← flatten_groups n segments]
    generalize groups n segments = gs at hcutting
    induction gs with
    | nil => rfl
    | cons g gs ih =>
      have hgs := ih fun g' hg' => hcutting g' (List.mem_cons_of_mem g hg')
      have hg := length_joined_add (n := n) (hcutting g List.mem_cons_self)
      simp only [List.map_cons, List.flatten_cons, List.length_append, List.sum_cons,
        List.map_append, List.sum_append]
      omega

/-- Two lines that meet are one strip, and a line behind a move is another one. -/
theorem strips_eq_groups_two_strips :
    let p : Point Float := ⟨0, 0, 0⟩
    let q : Point Float := ⟨1, 0, 0⟩
    let r : Point Float := ⟨1, 1, 0⟩
    let segments : List (Segment Float) := [.line p q, .line q r, .move p, .line p r]
    strips 1 segments = [[p, q, r], [p, r]] ∧
      ¬Divides (groups 1 segments) [.line p q] ∧
      Divides (groups 1 segments) [.line p q, .line q r] := by
  intro p q r segments
  obtain ⟨hstrips, -, hdivides, -, -⟩ := strips_eq_groups 1 segments
  have hmeets : Segment.meets 1 (.line p q) (.line q r) = true := by decide +kernel
  refine ⟨hstrips.trans (by decide +kernel), fun h => ?_, ?_⟩
  · have hjoin := (hdivides [] (.line p q) [] (.line q r) [.move p, .line p r] rfl rfl rfl
      (by simp)).mp h
    rw [hmeets] at hjoin
    simp at hjoin
  · exact (hdivides [.line p q] (.line q r) [.move p] (.line p r) [] rfl rfl rfl
      (by simp [Segment.isCutting])).mpr (Or.inl (by simp))

end Motion
