/-
# Entries in any order

A section is read entry by entry, and each entry sets what its key names.  Different keys set
different things, so the entries can be read in any order (`readEntries?_perm`); and an entry whose
key names nothing changes nothing (`readEntries?_append_unknown`).  It remains to read the entries
that name something in the order of the settings, where some may be missing (`Says`).  So a section
says what its entries say, and everything else keeps its default (`Says.readEntries?`).
-/
import Mathlib.Data.List.Pairwise
import Motion.Proofs.Settings.Documents

namespace Motion.Settings

variable {δ σ : Type}

/-! ## 1. The order of entries -/

/-- It makes no difference which of the two is set first. -/
def Setting.Commutes (s t : Setting δ σ) : Prop :=
  ∀ v w current, (s.set? v current).bind (t.set? w) = (t.set? w current).bind (s.set? v)

instance : Std.Symm (@Setting.Commutes δ σ) where
  symm _ _ h v w current := (h w v current).symm

theorem mem_of_findSetting? {key : Text} {settings : List (Setting δ σ)} {s : Setting δ σ}
    (h : findSetting? key settings = some s) : s ∈ settings ∧ s.key = key := by
  induction settings with
  | nil => cases h
  | cons t settings ih =>
    rw [findSetting?] at h
    split at h
    case isTrue hkey =>
      obtain rfl := Option.some.inj h
      exact ⟨List.mem_cons_self, beq_iff_eq.mp hkey⟩
    case isFalse =>
      obtain ⟨hmem, hkey⟩ := ih h
      exact ⟨List.mem_cons_of_mem t hmem, hkey⟩

theorem findSetting?_eq_none_iff {key : Text} {settings : List (Setting δ σ)} :
    findSetting? key settings = none ↔ key ∉ settings.map Setting.key := by
  induction settings with
  | nil => simp [findSetting?]
  | cons t settings ih =>
    rw [findSetting?, List.map_cons, List.mem_cons, not_or, ← ih, eq_comm (a := key)]
    by_cases hkey : t.key = key <;> simp [hkey]

/-- Settings of which each has a key of its own. -/
theorem findSetting?_key {settings : List (Setting δ σ)} (h : (settings.map Setting.key).Nodup)
    {s : Setting δ σ} (hs : s ∈ settings) : findSetting? s.key settings = some s := by
  induction settings with
  | nil => cases hs
  | cons t settings ih =>
    rw [List.map_cons, List.nodup_cons] at h
    rw [findSetting?]
    rcases List.mem_cons.mp hs with rfl | hs
    · rw [if_pos (beq_self_eq_true _)]
    · have hne : t.key ≠ s.key := fun heq => h.1 (heq ▸ List.mem_map_of_mem hs)
      rw [if_neg (by simpa using hne), ih h.2 hs]

/-- Only which keys were seen makes a difference. -/
theorem readEntries?_congr_seen {settings : List (Setting δ σ)} {seen seen' : List Text}
    (h : ∀ key, seen.contains key = seen'.contains key) (current : σ)
    (entries : List (Option Text × δ)) :
    readEntries? settings seen current entries = readEntries? settings seen' current entries := by
  induction entries generalizing seen seen' current with
  | nil => rfl
  | cons entry entries ih =>
    rcases entry with ⟨- | key, v⟩
    · rfl
    · have hnext (next : σ) : readEntries? settings (key :: seen) next entries =
          readEntries? settings (key :: seen') next entries :=
        ih (fun other => by rw [List.contains_cons, List.contains_cons, h]) next
      simp only [readEntries?, h, ih h, hnext]

section Steps

variable {settings : List (Setting δ σ)} {seen : List Text} {current next : σ} {key : Text} {v : δ}
  {rest : List (Option Text × δ)}

/-- An entry whose key names nothing is passed over. -/
theorem readEntries?_unknown (hkey : findSetting? key settings = none) :
    readEntries? settings seen current ((some key, v) :: rest) =
      readEntries? settings seen current rest := by
  simp only [readEntries?, hkey]

/-- An entry sets what its key names. -/
theorem readEntries?_known {s : Setting δ σ} (hkey : findSetting? key settings = some s) :
    readEntries? settings seen current ((some key, v) :: rest) =
      if seen.contains key then none
      else (s.set? v current).bind fun next => readEntries? settings (key :: seen) next rest := by
  simp only [readEntries?, hkey]

end Steps

/-- Nothing is read before an entry without a key. -/
theorem readEntries?_cons_none {settings : List (Setting δ σ)} (seen : List Text) (current : σ)
    (e : Option Text × δ) (v : δ) (rest : List (Option Text × δ)) :
    readEntries? settings seen current (e :: (none, v) :: rest) = none := by
  rcases e with ⟨- | key, w⟩
  · rfl
  · cases hs : findSetting? key settings with
    | none =>
      rw [readEntries?_unknown hs]
      rfl
    | some s =>
      rw [readEntries?_known hs]
      simp [readEntries?]

/-- Two entries that name something.  There are no settings if they name the same. -/
theorem readEntries?_swap_known {settings : List (Setting δ σ)}
    (hcommute : settings.Pairwise Setting.Commutes) {key key' : Text} {s s' : Setting δ σ}
    (hs : findSetting? key settings = some s) (hs' : findSetting? key' settings = some s')
    (seen : List Text) (current : σ) (v v' : δ) (rest : List (Option Text × δ)) :
    readEntries? settings seen current ((some key, v) :: (some key', v') :: rest) =
      readEntries? settings seen current ((some key', v') :: (some key, v) :: rest) := by
  obtain ⟨hmem, hkey⟩ := mem_of_findSetting? hs
  obtain ⟨hmem', hkey'⟩ := mem_of_findSetting? hs'
  simp only [readEntries?_known hs, readEntries?_known hs', List.contains_cons]
  by_cases hsame : key = key'
  · subst hsame
    simp
  · have hne : (key' == key) = false := beq_eq_false_iff_ne.mpr (Ne.symm hsame)
    have hne' : (key == key') = false := beq_eq_false_iff_ne.mpr hsame
    have hboth : s.Commutes s' := by
      refine hcommute.forall hmem hmem' ?_
      rintro rfl
      exact hsame (hkey.symm.trans hkey')
    have hseen (next : σ) : readEntries? settings (key' :: key :: seen) next rest =
        readEntries? settings (key :: key' :: seen) next rest :=
      readEntries?_congr_seen (fun k => by simp only [List.contains_cons, Bool.or_left_comm]) next
        rest
    simp only [hne, hne', Bool.false_or, hseen]
    cases seen.contains key with
    | true => cases seen.contains key' <;> simp
    | false =>
      cases seen.contains key' with
      | true => simp
      | false =>
        simp only [Bool.false_eq_true, if_false, ← Option.bind_assoc]
        rw [hboth]

theorem readEntries?_swap {settings : List (Setting δ σ)}
    (hcommute : settings.Pairwise Setting.Commutes) (seen : List Text) (current : σ)
    (e e' : Option Text × δ) (rest : List (Option Text × δ)) :
    readEntries? settings seen current (e :: e' :: rest) =
      readEntries? settings seen current (e' :: e :: rest) := by
  rcases e with ⟨- | key, v⟩
  · rw [readEntries?_cons_none]
    rfl
  · rcases e' with ⟨- | key', v'⟩
    · rw [readEntries?_cons_none]
      rfl
    · cases hs : findSetting? key settings with
      | none => simp only [readEntries?, hs]
      | some s =>
        cases hs' : findSetting? key' settings with
        | none => simp only [readEntries?, hs']
        | some s' => exact readEntries?_swap_known hcommute hs hs' seen current v v' rest

/-- **Entries can be read in any order.** -/
theorem readEntries?_perm {settings : List (Setting δ σ)}
    (hcommute : settings.Pairwise Setting.Commutes) {entries entries' : List (Option Text × δ)}
    (h : entries.Perm entries') (seen : List Text) (current : σ) :
    readEntries? settings seen current entries = readEntries? settings seen current entries' := by
  induction h generalizing seen current with
  | nil => rfl
  | cons entry _ ih =>
    rcases entry with ⟨- | key, v⟩
    · rfl
    · simp only [readEntries?, ih]
  | swap e e' rest => exact readEntries?_swap hcommute seen current e' e rest
  | trans _ _ ih ih' => exact (ih seen current).trans (ih' seen current)

/-! ## 2. Entries that are missing -/

/-- What some entries make of a section, where they stand in the order of the settings and each
setting has one at most. -/
inductive Says : List (Setting δ σ) → σ → List (Text × δ) → σ → Prop where
  | nil {current : σ} : Says [] current [] current
  | missing {s : Setting δ σ} {settings current entries next}
      (h : Says settings current entries next) :
      Says (s :: settings) current entries next
  | given {s : Setting δ σ} {settings current middle entries next v}
      (hset : s.set? v current = some middle) (h : Says settings middle entries next) :
      Says (s :: settings) current ((s.key, v) :: entries) next

theorem Says.of_eq {current next : σ} (h : current = next) :
    Says ([] : List (Setting δ σ)) current [] next := h ▸ .nil

theorem Says.eq_of_nil {settings : List (Setting δ σ)} {current next : σ}
    (h : Says settings current [] next) : next = current := by
  generalize hnone : ([] : List (Text × δ)) = entries at h
  induction h with
  | nil => rfl
  | missing _ ih => exact ih hnone
  | given => cases hnone

theorem Says.found {s : Setting δ σ} {settings : List (Setting δ σ)} {current next : σ} (middle : σ)
    {found entries : List (Text × δ)} (h : found = [] ∧ middle = current ∨
      ∃ v, found = [(s.key, v)] ∧ s.set? v current = some middle)
    (hrest : Says settings middle entries next) :
    Says (s :: settings) current (found ++ entries) next := by
  rcases h with ⟨rfl, rfl⟩ | ⟨v, rfl, hset⟩
  · exact .missing hrest
  · exact .given hset hrest

/-- An entry that is there or not. -/
def entryIf (kept : Bool) (key : Text) (v : δ) : List (Text × δ) := if kept then [(key, v)] else []

theorem Says.entryIf {s : Setting δ σ} {settings : List (Setting δ σ)} {current middle next : σ}
    {entries : List (Text × δ)} {v : δ} (kept : Bool) (hset : s.set? v current = some middle)
    (h : Says settings (if kept then middle else current) entries next) :
    Says (s :: settings) current (Settings.entryIf kept s.key v ++ entries) next := by
  cases kept with
  | true => exact .given hset h
  | false => exact .missing h

/-- The entries of a table, as its reader sees them. -/
def keyed (entries : List (Text × δ)) : List (Option Text × δ) :=
  entries.map fun entry => (some entry.1, entry.2)

theorem Says.readEntries?_keyed {all settings : List (Setting δ σ)} {current next : σ}
    {entries : List (Text × δ)} (h : Says settings current entries next)
    (hsub : settings.Sublist all) (hnodup : (all.map Setting.key).Nodup) {seen : List Text}
    (hseen : ∀ s ∈ settings, seen.contains s.key = false) :
    readEntries? all seen current (keyed entries) = some next := by
  induction h generalizing seen with
  | nil => rfl
  | missing _ ih =>
    exact ih (List.sublist_of_cons_sublist hsub) fun s hs => hseen s (List.mem_cons_of_mem _ hs)
  | @given s settings current middle entries next v hset _ ih =>
    have hfind : findSetting? s.key all = some s :=
      findSetting?_key hnodup (hsub.subset List.mem_cons_self)
    have hothers : s.key ∉ settings.map Setting.key :=
      (List.nodup_cons.mp ((hsub.map Setting.key).nodup hnodup)).1
    rw [keyed, List.map_cons, readEntries?_known hfind, hseen s List.mem_cons_self,
      if_neg Bool.false_ne_true, hset, Option.bind_some]
    refine ih (List.sublist_of_cons_sublist hsub) fun t ht => ?_
    have hne : (t.key == s.key) = false :=
      beq_eq_false_iff_ne.mpr fun heq => hothers (heq ▸ List.mem_map_of_mem ht)
    rw [List.contains_cons, hne, hseen t (List.mem_cons_of_mem s ht)]
    rfl

theorem readEntries?_append_unknown {settings : List (Setting δ σ)} {others : List (Text × δ)}
    (h : ∀ entry ∈ others, entry.1 ∉ settings.map Setting.key) (seen : List Text) (current : σ)
    (entries : List (Option Text × δ)) :
    readEntries? settings seen current (keyed others ++ entries) =
      readEntries? settings seen current entries := by
  induction others with
  | nil => rfl
  | cons entry others ih =>
    obtain ⟨hentry, hrest⟩ := List.forall_mem_cons.mp h
    rw [keyed, List.map_cons, List.cons_append,
      readEntries?_unknown (findSetting?_eq_none_iff.mpr hentry)]
    exact ih hrest

/-- **A section says what its entries say**, in any order and with others beside them whose keys
name nothing. -/
theorem Says.readSection? {view : View δ} {settings : List (Setting δ σ)} {default next : σ}
    {entries members others : List (Text × δ)} {v : δ} (h : Says settings default entries next)
    (hcommute : settings.Pairwise Setting.Commutes) (hnodup : (settings.map Setting.key).Nodup)
    (hv : view.entries? v = some (keyed members)) (hmembers : members.Perm (entries ++ others))
    (hothers : ∀ entry ∈ others, entry.1 ∉ settings.map Setting.key) :
    Settings.readSection? view settings default v = some next := by
  have hperm : (keyed members).Perm (keyed others ++ keyed entries) := by
    rw [keyed, keyed, keyed, ← List.map_append]
    exact (hmembers.trans List.perm_append_comm).map _
  rw [readSection?_of_entries hv, readEntries?_perm hcommute hperm,
    readEntries?_append_unknown hothers]
  exact h.readEntries?_keyed (List.Sublist.refl settings) hnodup fun _ _ => rfl

end Motion.Settings
