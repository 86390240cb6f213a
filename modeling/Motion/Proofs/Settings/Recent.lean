/-
# Recent files

The list of recent files forgets: each time a file is opened, what does not fit any more is dropped,
and with it the knowledge that it was ever there.  This module says that nothing is lost that way.
At any time the list is the beginning of the whole history, in which each file stands where it was
opened last, the newest one in front (`recent_files_are_last_opened`).

Opening a file moves it to the front of the history and takes it out of where it was.  Only one
entry is taken out, so one place becomes free at most, and the file in front takes it: no entry that
had been dropped would have come back (`addRecent_take`).  With that the statement for any number of
files is an induction on the history.

Two paths are the same file here when they have the same parts, and what is kept is the spelling of
the last time.
-/
import Mathlib.Data.Finset.Card
import Mathlib.Data.List.Dedup
import Motion.Settings

namespace Motion

theorem Path.same_iff {p q : Text} : Path.same p q = true ↔ Path.parts p = Path.parts q :=
  beq_iff_eq

theorem Path.same_comm (p q : Text) : Path.same p q = Path.same q p := Bool.beq_comm

namespace Settings

/-! ## 1. The history -/

/-- Each file where it was opened last: the paths behind which none leads to the same file. -/
def lastOpened : List Text → List Text
  | [] => []
  | p :: later => if later.any (Path.same p) then lastOpened later else p :: lastOpened later

/-- A path that is not given again is kept. -/
theorem lastOpened_cons_of_forall {p : Text} {later : List Text}
    (h : ∀ q ∈ later, Path.same p q = false) : lastOpened (p :: later) = p :: lastOpened later := by
  have hany : later.any (Path.same p) = false := by simpa using h
  rw [lastOpened, hany, if_neg Bool.false_ne_true]

/-- **Opening more files** takes those out that are opened again. -/
theorem lastOpened_append (before after : List Text) :
    lastOpened (before ++ after) =
      (lastOpened before).filter (fun p => !after.any (Path.same p)) ++ lastOpened after := by
  induction before with
  | nil => rfl
  | cons p rest ih =>
    rw [List.cons_append, lastOpened, lastOpened, List.any_append, ih]
    cases hrest : rest.any (Path.same p) with
    | true => rfl
    | false =>
      cases hafter : after.any (Path.same p) with
      | true => simp [hafter]
      | false => simp [hafter]

theorem lastOpened_concat (paths : List Text) (p : Text) :
    lastOpened (paths ++ [p]) = (lastOpened paths).filter (fun q => !Path.same q p) ++ [p] := by
  rw [lastOpened_append]
  simp [lastOpened]

theorem lastOpened_sublist (paths : List Text) : List.Sublist (lastOpened paths) paths := by
  induction paths with
  | nil => exact List.Sublist.refl _
  | cons p rest ih =>
    rw [lastOpened]
    split
    · exact ih.cons p
    · exact ih.cons_cons p

/-- The history has every file once. -/
theorem map_parts_lastOpened (paths : List Text) :
    (lastOpened paths).map Path.parts = (paths.map Path.parts).dedup := by
  induction paths with
  | nil => rfl
  | cons p rest ih =>
    have hany : rest.any (Path.same p) = true ↔ Path.parts p ∈ rest.map Path.parts := by
      rw [List.any_eq_true, List.mem_map]
      exact exists_congr fun q => and_congr_right fun _ => Path.same_iff.trans eq_comm
    rw [lastOpened, List.map_cons, List.dedup_cons, ← ih]
    split
    case isTrue h => rw [if_pos (hany.mp h)]
    case isFalse h => rw [if_neg (mt hany.mpr h), List.map_cons]

theorem nodup_map_parts_lastOpened (paths : List Text) :
    ((lastOpened paths).map Path.parts).Nodup := by
  rw [map_parts_lastOpened]
  exact List.nodup_dedup _

/-- The history is as long as there are different files. -/
theorem length_lastOpened (paths : List Text) :
    (lastOpened paths).length = (paths.map Path.parts).toFinset.card := by
  rw [List.card_toFinset, ← map_parts_lastOpened, List.length_map]

/-! ## 2. Dropping what does not fit -/

/-- Where at most one entry is taken out, the first `n` are among the first `n + 1` that were there
before. -/
theorem take_filter_take {β : Type} {l : List β} {keep : β → Bool}
    (hone : l.countP (fun b => !keep b) ≤ 1) (n : Nat) :
    ((l.take (n + 1)).filter keep).take n = (l.filter keep).take n := by
  rcases Nat.lt_or_ge (n + 1) l.length with hlong | hshort
  · have hsplit : l.filter keep =
        (l.take (n + 1)).filter keep ++ (l.drop (n + 1)).filter keep := by
      rw [← List.filter_append, List.take_append_drop]
    have hout : (l.take (n + 1)).countP (fun b => !keep b) ≤ 1 :=
      ((List.take_sublist _ _).countP_le).trans hone
    have hcount : (l.take (n + 1)).length = _ := List.length_eq_countP_add_countP keep
    have hlength : n ≤ ((l.take (n + 1)).filter keep).length := by
      rw [List.length_take_of_le hlong.le] at hcount
      simp only [Bool.not_eq_true, ← Bool.not_eq_true', Bool.decide_eq_true] at hcount
      rw [← List.countP_eq_length_filter]
      omega
    rw [hsplit, List.take_append_of_le_length hlength]
  · rw [List.take_of_length_le hshort]

/-- **What was dropped makes no difference**: the next file leaves the same list as if all of the
history were still there. -/
theorem addRecent_take {history : List Text} (hnodup : (history.map Path.parts).Nodup) (p : Text) :
    addRecent p (history.take recentLimit) =
      (p :: history.filter fun q => !Path.same q p).take recentLimit := by
  have hone : history.countP (fun q => !!Path.same q p) ≤ 1 := by
    have hcount := List.nodup_iff_count_le_one.mp hnodup (Path.parts p)
    rw [List.count, List.countP_map] at hcount
    simpa [Function.comp_def, Path.same] using hcount
  exact congrArg (p :: ·) (take_filter_take hone 9)

/-! ## 3. Any number of files -/

/-- The recent files of new settings after some files were opened, one after the other. -/
def recentAfter (paths : List Text) : List Text :=
  paths.foldl (fun recent path => addRecent path recent) ({} : Settings).recentFiles

theorem recentAfter_concat (paths : List Text) (p : Text) :
    recentAfter (paths ++ [p]) = addRecent p (recentAfter paths) := List.foldl_concat ..

/-- **The list is the beginning of the history**, the newest file in front. -/
theorem recentAfter_eq_take (paths : List Text) :
    recentAfter paths = (lastOpened paths).reverse.take recentLimit := by
  induction paths using List.reverseRecOn with
  | nil => rfl
  | append_singleton paths p ih =>
    have hnodup : ((lastOpened paths).reverse.map Path.parts).Nodup := by
      rw [List.map_reverse, List.nodup_reverse]
      exact nodup_map_parts_lastOpened paths
    rw [recentAfter_concat, ih, addRecent_take hnodup, lastOpened_concat, List.reverse_concat,
      List.filter_reverse]

/-- Opening the file in front once more changes nothing. -/
theorem addRecent_addRecent (p : Text) (recent : List Text) :
    addRecent p (addRecent p recent) = addRecent p recent := by
  have hself : Path.same p p = true := Path.same_iff.mpr rfl
  have hfront : addRecent p recent =
      p :: (recent.filter fun q => !Path.same q p).take (recentLimit - 1) := rfl
  have hrest : ∀ q ∈ (recent.filter fun q => !Path.same q p).take (recentLimit - 1),
      (!Path.same q p) = true := by
    intro q hq
    exact (List.mem_filter.mp (List.mem_of_mem_take hq)).2
  rw [hfront, addRecent, List.filter_cons_of_neg (by simp [hself]), List.filter_eq_self.mpr hrest]
  exact congrArg (p :: ·) List.take_take

/-- **When a file is forgotten.**  In front of a file that is not opened again are the files that
are opened after it, each once. -/
theorem mem_recentAfter_iff (before : List Text) {p : Text} {after : List Text}
    (h : ∀ q ∈ after, Path.same q p = false) :
    p ∈ recentAfter (before ++ p :: after) ↔
      (after.map Path.parts).toFinset.card < recentLimit := by
  have hafter : ∀ q ∈ after, Path.same p q = false := by
    intro q hq
    rw [Path.same_comm]
    exact h q hq
  have hfront : p ∉ (lastOpened after).reverse := by
    intro hmem
    have hsame := h p ((lastOpened_sublist after).subset (List.mem_reverse.mp hmem))
    rw [Path.same_iff.mpr rfl] at hsame
    cases hsame
  rw [recentAfter_eq_take, lastOpened_append, lastOpened_cons_of_forall hafter,
    ← length_lastOpened, List.reverse_append, List.reverse_cons, List.append_assoc,
    List.singleton_append, List.take_append, List.mem_append, List.length_reverse]
  constructor
  · rintro (hmem | hmem)
    · exact absurd (List.mem_of_mem_take hmem) hfront
    · by_contra hfull
      rw [Nat.sub_eq_zero_of_le (Nat.le_of_not_lt hfull), List.take_zero] at hmem
      cases hmem
  · intro hfree
    obtain ⟨k, hk⟩ := Nat.exists_eq_succ_of_ne_zero (Nat.sub_ne_zero_of_lt hfree)
    rw [hk, List.take_succ_cons]
    exact Or.inr List.mem_cons_self

/-! ## 4. The statement -/

/-- **The recent files are those opened last.**

Open any number of files with new settings, one after the other.  The list of recent files is then
the beginning of the history, in which each of the files stands where it was opened last and as it
was spelled then, the newest one in front.  So no file is in the list twice, there are at most
`recentLimit` of them, and the file opened last is in front, where opening it once more leaves
everything as it is.  And a file is in the list exactly as long as fewer than `recentLimit`
different files have been opened after it. -/
theorem recent_files_are_last_opened (paths : List Text) :
    let recent := recentAfter paths
    recent = (lastOpened paths).reverse.take recentLimit ∧
      (recent.Pairwise fun p q => Path.same p q = false) ∧
      recent.length ≤ recentLimit ∧
      (∀ p, paths.getLast? = some p → recent.head? = some p ∧ addRecent p recent = recent) ∧
      ∀ before p after, paths = before ++ p :: after →
        (∀ q ∈ after, Path.same q p = false) →
        (p ∈ recent ↔ (after.map Path.parts).toFinset.card < recentLimit) := by
  intro recent
  have htake : recent = (lastOpened paths).reverse.take recentLimit := recentAfter_eq_take paths
  refine ⟨htake, ?distinct, ?bounded, ?front, ?kept⟩
  case distinct =>
    rw [htake]
    refine List.Pairwise.sublist (List.take_sublist _ _) (List.pairwise_reverse.mpr ?_)
    refine (List.pairwise_map.mp (nodup_map_parts_lastOpened paths)).imp ?_
    intro p q hne
    rw [← Bool.not_eq_true, Path.same_iff]
    exact hne.symm
  case bounded =>
    rw [htake]
    exact List.length_take_le _ _
  case front =>
    intro p hp
    obtain ⟨before, rfl⟩ := List.getLast?_eq_some_iff.mp hp
    have hconcat : recent = addRecent p (recentAfter before) := recentAfter_concat before p
    rw [hconcat]
    exact ⟨rfl, addRecent_addRecent p _⟩
  case kept =>
    intro before p after hpaths h
    have hrecent : recent = recentAfter (before ++ p :: after) := congrArg recentAfter hpaths
    rw [hrecent]
    exact mem_recentAfter_iff before h

/-- Two files, the first of them opened again under another spelling. -/
theorem recent_files_are_last_opened_twice :
    let recent := recentAfter ["a".toList, "b".toList, "a/".toList]
    recent = ["a/".toList, "b".toList] ∧ addRecent "a/".toList recent = recent ∧
      ("b".toList ∈ recent ↔ (["a/".toList].map Path.parts).toFinset.card < recentLimit) := by
  intro recent
  obtain ⟨hrecent, -, -, hlast, hkept⟩ :=
    recent_files_are_last_opened ["a".toList, "b".toList, "a/".toList]
  exact ⟨hrecent.trans (by decide), (hlast "a/".toList rfl).2,
    hkept ["a".toList] "b".toList ["a/".toList] rfl (by decide)⟩

end Settings
end Motion
