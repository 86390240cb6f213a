/-
# Settings in memory and settings in files

Settings are held with paths that are bytes and stored with paths that are texts.  Where all the
paths are texts, it makes no difference which of the two is looked at: the same file is saved in the
same way (`save_ofSettings`), and opening a file gives the same list (`addRecent_ofSettings`).

For the second, the parts of a path must be the same in its bytes and in its characters.  A path is
cut at slashes, and single and double points are told from names; all that is ASCII, and in UTF-8 an
ASCII character is its own byte and no other character has that byte.  So the cut is the same, piece
by piece, for every spelling of the characters that keeps slashes and points and confuses nothing
(`Path.parts_flatMap`).
-/
import Motion.Proofs.Settings.Saving
import Motion.Proofs.Text.Decoding
import Motion.Proofs.Text.Lines
import Motion.Settings.Session

namespace Motion

/-! ## 1. Other spellings of a path -/

namespace Path

/-- A spelling of characters that keeps slashes and points, and from which a text can be told. -/
structure IsSpelling (f : Char → Text) : Prop where
  slash : f '/' = ['/']
  point : f '.' = ['.']
  eq_slash : ∀ c, '/' ∈ f c → c = '/'
  injective : Function.Injective fun t : Text => t.flatMap f

/-- A part with its name spelled anew. -/
def Part.respelled (f : Char → Text) : Part → Part
  | .name n => .name (n.flatMap f)
  | part => part

section Spelling

variable {f : Char → Text} (hf : IsSpelling f)
include hf

theorem IsSpelling.respelled_injective : Function.Injective (Part.respelled f) := by
  intro p q h
  cases p <;> cases q <;> simp only [Part.respelled, reduceCtorEq, Part.name.injEq] at h ⊢
  exact hf.injective h

theorem IsSpelling.notMem {l : Text} (h : '/' ∉ l) : '/' ∉ l.flatMap f := by
  intro hmem
  obtain ⟨c, hc, hslash⟩ := List.mem_flatMap.mp hmem
  exact h (hf.eq_slash c hslash ▸ hc)

theorem splitOn_flatMap (t : Text) :
    (t.flatMap f).splitOn '/' = (t.splitOn '/').map fun piece => piece.flatMap f := by
  induction t using Text.feed_induction '/' with
  | last l hl =>
    rw [List.splitOn_eq_singleton hl, List.splitOn_eq_singleton (hf.notMem hl), List.map_singleton]
  | line l rest hl ih =>
    rw [List.flatMap_append, List.flatMap_cons, hf.slash, List.singleton_append,
      List.splitOn_append_cons_self, List.splitOn_append_cons_self, List.map_append, ih,
      List.splitOn_eq_singleton hl, List.splitOn_eq_singleton (hf.notMem hl), List.map_singleton]

theorem flatMap_eq_iff (t : Text) {t' : Text} (h : t'.flatMap f = t') :
    t.flatMap f = t' ↔ t = t' := by
  refine ⟨fun heq => hf.injective (heq.trans h.symm), ?_⟩
  rintro rfl
  exact h

theorem part?_flatMap (piece : Text) :
    part? (piece.flatMap f) = (part? piece).map (Part.respelled f) := by
  have hempty : piece.flatMap f = [] ↔ piece = [] := flatMap_eq_iff hf piece rfl
  have hpoint : piece.flatMap f = ['.'] ↔ piece = ['.'] :=
    flatMap_eq_iff hf piece (by simp [hf.point])
  have hpoints : piece.flatMap f = ['.', '.'] ↔ piece = ['.', '.'] :=
    flatMap_eq_iff hf piece (by simp [hf.point])
  simp only [part?, Bool.or_eq_true, List.isEmpty_iff, beq_iff_eq, hempty, hpoint, hpoints]
  split
  · rfl
  · split <;> rfl

theorem head?_flatMap (t : Text) :
    ((t.flatMap f).head? == some '/') = (t.head? == some '/') := by
  cases t with
  | nil => rfl
  | cons c rest =>
    have hnil : f c ≠ [] := by
      intro h
      have hcollapse : [c].flatMap f = ([] : Text).flatMap f := by simp [h]
      exact absurd (hf.injective hcollapse) (List.cons_ne_nil c [])
    rw [Bool.eq_iff_iff, beq_iff_eq, beq_iff_eq, List.flatMap_cons,
      List.head?_append_of_ne_nil _ hnil, List.head?_cons, Option.some_inj]
    constructor
    · exact fun h => hf.eq_slash c (List.mem_of_head? h)
    · rintro rfl
      rw [hf.slash, List.head?_cons]

/-- **A path has the same parts in every spelling.** -/
theorem parts_flatMap (t : Text) : parts (t.flatMap f) = (parts t).map (Part.respelled f) := by
  have hhere : (((t.splitOn '/').map fun piece => piece.flatMap f).head? == some ['.']) =
      ((t.splitOn '/').head? == some ['.']) := by
    rw [List.head?_map]
    cases (t.splitOn '/').head? with
    | none => rfl
    | some piece =>
      rw [Bool.eq_iff_iff, beq_iff_eq, beq_iff_eq, Option.map_some, Option.some_inj,
        Option.some_inj]
      exact flatMap_eq_iff hf piece (by simp [hf.point])
  simp only [parts, splitOn_flatMap hf, head?_flatMap hf, hhere, List.filterMap_map,
    Function.comp_def, part?_flatMap hf, List.map_append, List.map_filterMap]
  congr 1
  split
  · rfl
  · split <;> rfl

theorem same_flatMap (p q : Text) : same (p.flatMap f) (q.flatMap f) = same p q := by
  rw [same, same, parts_flatMap hf, parts_flatMap hf, Bool.eq_iff_iff, beq_iff_eq, beq_iff_eq]
  exact (List.map_injective_iff.mpr hf.respelled_injective).eq_iff

end Spelling

end Path

/-! ## 2. The bytes of a path -/

namespace SystemPath

theorem toNat_ofNat_toNat (b : UInt8) : (Char.ofNat b.toNat).toNat = b.toNat :=
  Text.toNat_ofNat_of_isValidChar (Or.inl (by have := b.toNat_lt; omega))

theorem spelled_injective : Function.Injective spelled := by
  refine List.map_injective_iff.mpr fun b b' h => ?_
  have hnat : b.toNat = b'.toNat := by
    rw [← toNat_ofNat_toNat b, ← toNat_ofNat_toNat b', h]
  exact UInt8.toNat_inj.mp hnat

/-- The character with the number of each byte of the UTF-8 form. -/
def bytewise (c : Char) : Text := spelled (String.utf8EncodeChar c)

theorem spelled_encode (t : Text) : spelled (Text.encode t) = t.flatMap bytewise :=
  List.map_flatMap

theorem encode_injective : Function.Injective Text.encode := by
  intro t t' h
  refine Option.some.inj ?_
  rw [← Text.decode?_encode, h, Text.decode?_encode]

/-- **An ASCII byte stands for itself alone**: the bytes on both sides of it are decoded apart from
it, and the bytes of one character make one character. -/
theorem eq_of_mem_bytewise {c d : Char} (hd : d.toNat < 0x80) (h : d ∈ bytewise c) : c = d := by
  obtain ⟨b, hb, rfl⟩ := List.mem_map.mp h
  rw [toNat_ofNat_toNat] at hd
  have hascii : b < 0x80 := UInt8.lt_iff_toNat_lt.mpr hd
  have hdecode : Text.decode (String.utf8EncodeChar c) = [c] := by
    have hencode := Text.decode?_encode [c]
    rw [Text.encode, List.flatMap_singleton, Text.decode?] at hencode
    split at hencode
    · exact Option.some.inj hencode
    · cases hencode
  obtain ⟨before, after, hsplit⟩ := List.append_of_mem hb
  rw [hsplit, Text.decode_append_ascii before hascii] at hdecode
  have hmem : Char.ofNat b.toNat ∈ [c] := by
    rw [← hdecode]
    exact List.mem_append_right _ List.mem_cons_self
  exact (List.mem_singleton.mp hmem).symm

theorem isSpelling_bytewise : Path.IsSpelling bytewise where
  slash := rfl
  point := rfl
  eq_slash := fun c h => eq_of_mem_bytewise (by decide) h
  injective := by
    intro t t' h
    simp only [← spelled_encode] at h
    exact encode_injective (spelled_injective h)

/-- **Texts are the same path if their bytes are.** -/
theorem same_encode (p q : Text) : same (Text.encode p) (Text.encode q) = Path.same p q := by
  rw [same, spelled_encode, spelled_encode, Path.same_flatMap isSpelling_bytewise]

end SystemPath

/-! ## 3. Settings whose paths are texts -/

namespace HeldSettings

theorem fault?_ofSettings (s : Settings) : (ofSettings s).fault? = s.fault? := rfl

theorem mapM_decode?_encode (paths : List Text) :
    (paths.map Text.encode).mapM Text.decode? = some paths := by
  induction paths with
  | nil => rfl
  | cons p paths ih => simp [List.map_cons, List.mapM_cons, Text.decode?_encode, ih]

theorem settings?_ofSettings (s : Settings) : (ofSettings s).settings? = some s := by
  rw [settings?, ofSettings, mapM_decode?_encode]
  rfl

/-- What was loaded is saved as it is. -/
theorem save_ofSettings (s : Settings) (path : Text) (store : Storage) :
    (ofSettings s).save path store =
      ((s.save path store).1, (s.save path store).2.mapError .settings) := by
  rw [save, fault?_ofSettings, settings?_ofSettings]
  cases hfault : s.fault? with
  | some f =>
    have hsaved : Settings.saved s path = .error (.fault f) := by
      rw [Settings.saved, Settings.check, hfault]
      rfl
    rw [Settings.save, hsaved]
    rfl
  | none =>
    cases hformat : Settings.formatOf path with
    | error e =>
      have hsaved : Settings.saved s path = .error e := by
        rw [Settings.saved, Settings.check, hfault, hformat]
        rfl
      rw [Settings.save, hsaved]
      rfl
    | ok format => rfl

/-- A text is opened as it is. -/
theorem addRecent_ofSettings (s : Settings) (path : Text) :
    (ofSettings s).addRecent (Text.encode path) =
      ofSettings { s with recentFiles := Settings.addRecent path s.recentFiles } := by
  have hothers : (s.recentFiles.map Text.encode).filter
        (fun p => !SystemPath.same p (Text.encode path)) =
      (s.recentFiles.filter fun p => !Path.same p path).map Text.encode := by
    rw [List.filter_map]
    exact congrArg _ (List.filter_congr fun p _ => by rw [Function.comp, SystemPath.same_encode])
  simp only [addRecent, ofSettings, hothers, Settings.addRecent, ← List.map_cons, List.map_take]

end HeldSettings

end Motion
