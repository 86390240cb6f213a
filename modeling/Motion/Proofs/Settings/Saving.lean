/-
# Saved settings load back

Three things have to fit together.  The bytes that saving writes are those of a text that says the
settings (`Format.read?_write`, `Text.decode?_encode`).  They stand where the path led when they
were written.  And the path still leads there: only a place that was no directory was given
something new, and a path goes through directories alone (`Storage.look_of_write?`).
-/
import Motion.Proofs.Settings.Documents
import Motion.Proofs.Text.Encoding
import Motion.Settings.Files

namespace Motion

/-! ## 1. Writing to a store -/

namespace Storage

variable {s : Storage} {place : Place}

theorem node?_put_self (hplace : place ≠ []) (node : Node) :
    (s.put place node).node? place = some node := by
  have hempty : place.isEmpty = false := List.isEmpty_eq_false_iff.mpr hplace
  rw [node?, hempty, if_neg Bool.false_ne_true, put, List.lookup_cons_self]

theorem lookup_filter_of_ne {p : Place} (h : p ≠ place) (nodes : List (Place × Node)) :
    (nodes.filter fun entry => entry.1 != place).lookup p = nodes.lookup p := by
  induction nodes with
  | nil => rfl
  | cons entry nodes ih =>
    rw [List.filter_cons]
    by_cases hentry : entry.1 = place
    · have hne : (p == entry.1) = false := beq_eq_false_iff_ne.mpr (hentry ▸ h)
      rw [if_neg (by simp [hentry]), ih, List.lookup_cons, hne]
    · rw [if_pos (by simp [hentry]), List.lookup_cons, List.lookup_cons, ih]

/-- The other places are left as they are. -/
theorem node?_put_of_ne {p : Place} (h : p ≠ place) (node : Node) :
    (s.put place node).node? p = s.node? p := by
  have hne : (p == place) = false := beq_eq_false_iff_ne.mpr h
  rw [node?, node?, put, List.lookup_cons, hne]
  exact ite_congr rfl (fun _ => rfl) fun _ => lookup_filter_of_ne h s.nodes

/-- A file that is put where no directory stands neither makes nor hides a directory. -/
theorem isDirectory_put_file (hplace : place ≠ []) (h : s.isDirectory place = false)
    (bytes : List UInt8) (p : Place) :
    (s.put place (.file bytes)).isDirectory p = s.isDirectory p := by
  by_cases hp : p = place
  · rw [hp, h, isDirectory, node?_put_self hplace]
    rfl
  · rw [isDirectory, node?_put_of_ne hp, isDirectory]

/-- Where a path leads depends on the directories alone. -/
theorem follow?_congr {s' : Storage} (h : ∀ p, s'.isDirectory p = s.isDirectory p) (start : Place)
    (pieces : List Text) : s'.follow? start pieces = s.follow? start pieces := by
  induction pieces generalizing start with
  | nil => rfl
  | cons piece rest ih => rw [follow?, follow?, h, ih]

theorem write?_eq_some_iff {path : Text} {bytes : List UInt8} {after : Storage} :
    s.write? path bytes = some after ↔
      ∃ name above, s.resolve? path = some (name :: above) ∧
        s.isDirectory (name :: above) = false ∧ isName name = true ∧
        after = s.put (name :: above) (.file bytes) := by
  unfold write?
  match hresolve : s.resolve? path with
  | none => simp
  | some [] => simp
  | some (name :: above) =>
    simp only
    split
    case isTrue hrefused =>
      constructor
      · intro h
        cases h
      · rintro ⟨_, _, hplace, hdirectory, hname, -⟩
        obtain ⟨rfl, rfl⟩ := List.cons.inj (Option.some.inj hplace)
        simp [hdirectory, hname] at hrefused
    case isFalse haccepted =>
      simp only [Bool.or_eq_true, Bool.not_eq_true', not_or, Bool.not_eq_true,
        Bool.not_eq_false] at haccepted
      constructor
      · exact fun h => ⟨name, above, rfl, haccepted.1, haccepted.2, (Option.some.inj h).symm⟩
      · rintro ⟨_, _, hplace, -, -, rfl⟩
        obtain ⟨rfl, rfl⟩ := List.cons.inj (Option.some.inj hplace)
        rfl

/-- **What was written stands there.** -/
theorem look_of_write? {path : Text} {bytes : List UInt8} {after : Storage}
    (h : s.write? path bytes = some after) : after.look path = some (.file bytes) := by
  obtain ⟨name, above, hresolve, hdirectory, -, rfl⟩ := write?_eq_some_iff.mp h
  have hplace : name :: above ≠ [] := List.cons_ne_nil name above
  have hagain : (s.put (name :: above) (.file bytes)).resolve? path = some (name :: above) := by
    rw [← hresolve, resolve?, resolve?,
      follow?_congr (isDirectory_put_file hplace hdirectory bytes)]
    rfl
  rw [look, hagain, Option.bind_some, node?_put_self hplace]

/-- A file can be put where a path leads, once the directories on the way are made.  What is in it
makes no difference, so an empty one stands for all. -/
def IsWritable (s : Storage) (path : Text) : Prop :=
  ∃ made, s.makeDirectories (Path.directory path) = (made, true) ∧
    (made.write? path []).isSome = true

theorem IsWritable.write {path : Text} (h : s.IsWritable path) (bytes : List UInt8) :
    ∃ made after, s.makeDirectories (Path.directory path) = (made, true) ∧
      made.write? path bytes = some after := by
  obtain ⟨made, hmade, hwrite⟩ := h
  obtain ⟨empty, hempty⟩ := Option.isSome_iff_exists.mp hwrite
  obtain ⟨name, above, hresolve, hdirectory, hname, -⟩ := write?_eq_some_iff.mp hempty
  exact ⟨made, _, hmade, write?_eq_some_iff.mpr ⟨name, above, hresolve, hdirectory, hname, rfl⟩⟩

end Storage

/-! ## 2. Saving and loading -/

namespace Settings

/-- The extensions of the two formats. -/
theorem exists_format {path : Text}
    (h : Path.extension? path = some "json".toList ∨ Path.extension? path = some "toml".toList) :
    ∃ format, Format.ofPath? path = some format := by
  rcases h with h | h
  · exact ⟨.json, by rw [Format.ofPath?, h]; rfl⟩
  · exact ⟨.toml, by rw [Format.ofPath?, h]; rfl⟩

/-- Saving settings at a path succeeds and leaves a store from which they load back. -/
def Keeps (s : Settings) (path : Text) (store after : Storage) : Prop :=
  (∃ t, s.save path store = (after, .ok t)) ∧ load path (after.look path) = .ok s

theorem exists_keeps {s : Settings} (hs : s.fault? = none) {path : Text} {store : Storage}
    (hextension :
      Path.extension? path = some "json".toList ∨ Path.extension? path = some "toml".toList)
    (hwritable : store.IsWritable path) : ∃ after, s.Keeps path store after := by
  obtain ⟨format, hformat⟩ := exists_format hextension
  have hchosen : formatOf path = .ok format := by rw [formatOf, hformat]
  have hchecked : check s = .ok s := by rw [check, hs]
  have hsaved : saved s path = .ok (format.write s) := by
    rw [saved, hchecked, hchosen]
    rfl
  obtain ⟨made, after, hmade, hwrite⟩ := hwritable.write (Text.encode (format.write s))
  refine ⟨after, ⟨format.write s, ?_⟩, ?_⟩
  · simp only [save, hsaved, hmade, hwrite]
  · have hread : readText (some (.file (Text.encode (format.write s)))) = .ok (format.write s) := by
      rw [readText, Text.decode?_encode]
    rw [Storage.look_of_write? hwrite, load, hread, hchosen]
    simp only [bind, Except.bind, format.read?_write, hchecked]

end Settings

/-- **Good settings that are saved load back unchanged**, from every path of either format where a
file can be written, and whatever their texts hold; and what was loaded can be saved once more, in
the same format or in the other one, and is still the same. -/
theorem load_save {s : Settings} (hs : s.fault? = none) (path : Text) (store : Storage)
    (hextension :
      Path.extension? path = some "json".toList ∨ Path.extension? path = some "toml".toList)
    (hwritable : store.IsWritable path) :
    ∃ after, s.Keeps path store after ∧
      ∀ other, (Path.extension? other = some "json".toList ∨
          Path.extension? other = some "toml".toList) → after.IsWritable other →
        ∃ loaded last, Settings.load path (after.look path) = .ok loaded ∧
          loaded.Keeps other after last ∧ Settings.load other (last.look other) = .ok s := by
  obtain ⟨after, hkeeps⟩ := Settings.exists_keeps hs hextension hwritable
  refine ⟨after, hkeeps, fun other hother hwritable' => ?_⟩
  obtain ⟨last, hlast⟩ := Settings.exists_keeps hs hother hwritable'
  exact ⟨s, last, hkeeps.2, hlast, hlast.2⟩

/-- All kinds of quotes, in a directory that saving makes. -/
theorem load_save_quotes :
    ∃ after, Settings.Keeps
      { parser := { mode := .modal, comment := '"' }
        playback := { arcSegments := 4294967295, startAtEnd := true }
        recentFiles := ["\x27\"\"\"".toList, "\\\r\n\t\x27\x27\x27\"\"".toList, []] }
      "new/a.toml".toList (.atPlace ["home".toList]) after := by
  refine Exists.imp (fun _ h => h.1) (load_save ?_ "new/a.toml".toList (.atPlace ["home".toList])
    (Or.inr ?_) ⟨_, rfl, ?_⟩)
  all_goals decide +kernel

end Motion
