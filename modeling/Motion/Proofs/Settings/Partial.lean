/-
# Documents that leave settings out

A document need not say all settings, and it may say more.  Whatever it keeps of good settings, in
whatever order, it loads as these settings where it keeps them and as the default ones elsewhere
(`partial_documents_merge`).

The formats differ in the values they have for a text, a count, a flag, a list and a table
(`Wording`), and what they have in common is that the reader of the format takes these for what they
are (`Wording.Fits`).  So the sections and the document are read once for both
(`Wording.IsPartial.ofDocument?`), and each format only has to show that it fits and that such a
document can be written.
-/
import Motion.Proofs.CommandLine.Outcome
import Motion.Proofs.Settings.Entries
import Motion.Proofs.Text.Encoding
import Motion.Proofs.Toml.Sections

namespace Motion

/-- What can be set on its own. -/
inductive SettingKey where
  | coordinateMode
  | commentChar
  | arcSegments
  | startAtEnd
  | recentFiles
  deriving Repr, DecidableEq

namespace Settings

/-- The values of some settings for the keys that are kept, and the default ones for the others. -/
def keeping (kept : SettingKey → Bool) (s : Settings) : Settings where
  parser :=
    { mode := if kept .coordinateMode then s.parser.mode else ({} : Options).mode
      comment := if kept .commentChar then s.parser.comment else ({} : Options).comment }
  playback :=
    { arcSegments :=
        if kept .arcSegments then s.playback.arcSegments else ({} : PlaybackOptions).arcSegments
      startAtEnd :=
        if kept .startAtEnd then s.playback.startAtEnd else ({} : PlaybackOptions).startAtEnd }
  recentFiles := if kept .recentFiles then s.recentFiles else []

theorem fault?_eq_none_iff {s : Settings} :
    s.fault? = none ↔ s.playback.arcSegments ≠ 0 ∧ isCommentChar s.parser.comment = true := by
  unfold fault?
  split
  case isTrue h => simp [h]
  case isFalse h => cases hc : isCommentChar s.parser.comment <;> simp [h]

/-- **Good settings are good in part.** -/
theorem fault?_keeping {s : Settings} (hs : s.fault? = none) (kept : SettingKey → Bool) :
    (s.keeping kept).fault? = none := by
  obtain ⟨harcs, hcomment⟩ := fault?_eq_none_iff.mp hs
  refine fault?_eq_none_iff.mpr ⟨?_, ?_⟩
  · cases h : kept .arcSegments <;> simp [keeping, h, harcs]
  · cases h : kept .commentChar
    · simp only [keeping, h, Bool.false_eq_true, if_false]
      decide +kernel
    · simpa only [keeping, h, if_true] using hcomment

/-! ## 1. Documents -/

/-- The values that a format has for the values of settings. -/
structure Wording (δ : Type) where
  text : Text → δ
  count : UInt32 → δ
  flag : Bool → δ
  list : List δ → δ
  /-- The value is a table with these entries. -/
  IsTable : δ → List (Text × δ) → Prop

namespace Wording

variable {δ : Type} (w : Wording δ) (kept : SettingKey → Bool) (s : Settings)

/-- The entries that are kept of the section that says how programs are read. -/
def parserEntries : List (Text × δ) :=
  entryIf (kept .coordinateMode) "coordinate_mode".toList (w.text s.parser.mode.name.toList) ++
    entryIf (kept .commentChar) "comment_char".toList (w.text [s.parser.comment])

/-- The entries that are kept of the section that says how programs are shown. -/
def playbackEntries : List (Text × δ) :=
  entryIf (kept .arcSegments) "arc_segments".toList (w.count s.playback.arcSegments) ++
    entryIf (kept .startAtEnd) "start_at_end".toList (w.flag s.playback.startAtEnd)

/-- The list of recent files, if it is kept. -/
def recentEntries : List (Text × δ) :=
  entryIf (kept .recentFiles) "recent_files".toList (w.list (s.recentFiles.map w.text))

/-- A table with some entries, in any order, and any other ones beside them that have none of the
given names. -/
def IsSection (names : List Text) (entries : List (Text × δ)) (v : δ) : Prop :=
  ∃ members others, w.IsTable v members ∧ members.Perm (entries ++ others) ∧
    ∀ entry ∈ others, entry.1 ∉ names

/-- What a document has for a section: a table with the entries that are kept, or nothing, if none
is. -/
inductive IsFound (name : Text) (names : List Text) (entries : List (Text × δ)) :
    List (Text × δ) → Prop where
  | absent (hnone : entries = []) : IsFound name names entries []
  | present {v : δ} (hsection : w.IsSection names entries v) :
      IsFound name names entries [(name, v)]

/-- A document that has the values of some settings for the keys that are kept, each once, and for
no other key. -/
def IsPartial (v : δ) : Prop :=
  ∃ parser playback,
    w.IsFound "parser".toList ["coordinate_mode".toList, "comment_char".toList]
      (w.parserEntries kept s) parser ∧
    w.IsFound "playback".toList ["arc_segments".toList, "start_at_end".toList]
      (w.playbackEntries kept s) playback ∧
    w.IsSection ["parser".toList, "playback".toList, "recent_files".toList]
      (parser ++ (playback ++ w.recentEntries kept s)) v

end Wording

/-- A JSON table. -/
def jsonObject (members : List (Text × Json)) : Json :=
  .object (members.map fun m => (Mark.ofText m.1, m.2))

/-- The JSON values of settings. -/
def jsonWording : Wording Json where
  text := .text
  count n := .count n.toNat
  flag := .bool
  list := .array
  IsTable v members := v = jsonObject members

/-- The TOML values of settings.  It makes no difference how a table came to be. -/
def tomlWording : Wording Toml.Value where
  text := .text
  count n := .whole n.toNat
  flag := .bool
  list := .array
  IsTable v members := ∃ form, v = .table form members

end Settings

/-- A text that says, in a format, the values of some settings for the keys that are kept and for no
others. -/
def Format.IsPartial (kept : SettingKey → Bool) (s : Settings) (t : Text) : Format → Prop
  | json => ∃ v, Json.read? t = some v ∧ Settings.jsonWording.IsPartial kept s v
  | toml => ∃ members, Toml.read? t = some members ∧
      Settings.tomlWording.IsPartial kept s (.table .header members)

namespace Settings

/-! ## 2. Reading them -/

variable {δ : Type} {view : View δ} {w : Wording δ}

/-- The reader of a format takes the values of settings for what they are. -/
structure Wording.Fits (w : Wording δ) (view : View δ) : Prop where
  text : ∀ t, view.text? (w.text t) = some t
  count : ∀ n, view.count? (w.count n) = some n
  flag : ∀ b, view.flag? (w.flag b) = some b
  list : ∀ vs, view.items? (w.list vs) = some vs
  table : ∀ v members, w.IsTable v members → view.entries? v = some (keyed members)

theorem fits_json : jsonWording.Fits jsonView where
  text := text?_jsonView
  count n := by simp [jsonWording, jsonView, Json.count, Text.readNatural?_toDigits, count?_toNat]
  flag _ := rfl
  list _ := rfl
  table := by
    rintro v members rfl
    simp [jsonView, jsonObject, keyed, Mark.text?_ofText, Function.comp_def]

theorem fits_toml : tomlWording.Fits tomlView where
  text _ := rfl
  count n := by simp [tomlWording, tomlView, count?_toNat]
  flag _ := rfl
  list _ := rfl
  table := by
    rintro v members ⟨form, rfl⟩
    rfl

/-- Settings that replace different parts commute. -/
theorem commutes_of_put {σ β γ : Type} {key key' : Text} {read : δ → Option β}
    {read' : δ → Option γ} {put : σ → β → σ} {put' : σ → γ → σ}
    (h : ∀ current b c, put' (put current b) c = put (put' current c) b) :
    Setting.Commutes ⟨key, fun v current => (read v).map (put current)⟩
      ⟨key', fun v current => (read' v).map (put' current)⟩ := by
  intro v w current
  dsimp only
  cases read v <;> cases read' w <;> simp [h]

theorem commute_parserSettings : (parserSettings view).Pairwise Setting.Commutes := by
  refine List.pairwise_pair.mpr ?_
  exact commutes_of_put fun _ _ _ => rfl

theorem commute_playbackSettings : (playbackSettings view).Pairwise Setting.Commutes := by
  refine List.pairwise_pair.mpr ?_
  exact commutes_of_put fun _ _ _ => rfl

theorem commute_sections : (sections view).Pairwise Setting.Commutes := by
  refine List.pairwise_cons.mpr ⟨?_, List.pairwise_pair.mpr (commutes_of_put fun _ _ _ => rfl)⟩
  refine List.forall_mem_cons.mpr ⟨commutes_of_put fun _ _ _ => rfl, ?_⟩
  exact List.forall_mem_singleton.mpr (commutes_of_put fun _ _ _ => rfl)

theorem says_options (hw : w.Fits view) (kept : SettingKey → Bool) (s : Settings) :
    Says (parserSettings view) {} (w.parserEntries kept s) (s.keeping kept).parser := by
  have hmode : readMode? view (w.text s.parser.mode.name.toList) = some s.parser.mode := by
    simp only [readMode?, hw.text, CoordinateMode.ofName?_name]
  have hcomment : readChar? view (w.text [s.parser.comment]) = some s.parser.comment := by
    simp only [readChar?, hw.text]
  rw [Wording.parserEntries, ← List.append_nil (Settings.entryIf _ "comment_char".toList _)]
  refine .entryIf _ (congrArg (Option.map _) hmode) ?_
  refine .entryIf _ (congrArg (Option.map _) hcomment) (.of_eq ?_)
  cases hmode : kept .coordinateMode <;> cases hcomment : kept .commentChar <;>
    simp [keeping, hmode, hcomment]

theorem says_playbackOptions (hw : w.Fits view) (kept : SettingKey → Bool) (s : Settings) :
    Says (playbackSettings view) {} (w.playbackEntries kept s) (s.keeping kept).playback := by
  rw [Wording.playbackEntries, ← List.append_nil (Settings.entryIf _ "start_at_end".toList _)]
  refine .entryIf _ (congrArg (Option.map _) (hw.count s.playback.arcSegments)) ?_
  refine .entryIf _ (congrArg (Option.map _) (hw.flag s.playback.startAtEnd)) (.of_eq ?_)
  cases harcs : kept .arcSegments <;> cases hend : kept .startAtEnd <;>
    simp [keeping, harcs, hend]

/-- What a document has for a section says what the section should say.  A section that is absent is
read as if it were empty. -/
theorem Wording.IsFound.says {σ : Type} (hw : w.Fits view) {name : Text} {names : List Text}
    {settings : List (Setting δ σ)} {default next : σ} {entries found : List (Text × δ)}
    (h : w.IsFound name names entries found) (hsaid : Says settings default entries next)
    (hcommute : settings.Pairwise Setting.Commutes) (hnames : settings.map Setting.key = names)
    (hnodup : names.Nodup) :
    found = [] ∧ next = default ∨
      ∃ v, found = [(name, v)] ∧ readSection? view settings default v = some next := by
  cases h with
  | absent hnone =>
    subst hnone
    exact .inl ⟨rfl, hsaid.eq_of_nil⟩
  | @present v hsection =>
    obtain ⟨members, others, htable, hperm, hothers⟩ := hsection
    subst hnames
    have hentries := hw.table v members htable
    exact .inr ⟨v, rfl, hsaid.readSection? hcommute hnodup hentries hperm hothers⟩

/-- **A document that keeps some settings** says these, and the default ones for the rest. -/
theorem Wording.IsPartial.ofDocument? {kept : SettingKey → Bool} {s : Settings} {v : δ}
    (h : w.IsPartial kept s v) (hw : w.Fits view) :
    Settings.ofDocument? view v = some (s.keeping kept) := by
  obtain ⟨parser, playback, hparser, hplayback, members, others, htable, hperm, hothers⟩ := h
  have hrecent : (view.items? (w.list (s.recentFiles.map w.text))).bind (List.mapM view.text?) =
      some s.recentFiles := by
    rw [hw.list, Option.bind_some, mapM_text? hw.text]
  have hparsed := hparser.says hw (says_options hw kept s) commute_parserSettings rfl (by decide)
  have hplayed := hplayback.says hw (says_playbackOptions hw kept s) commute_playbackSettings rfl
    (by decide)
  have hsaid : Says (sections view) {} (parser ++ (playback ++ w.recentEntries kept s))
      (s.keeping kept) := by
    refine .found { parser := (s.keeping kept).parser } ?_ (.found
      { parser := (s.keeping kept).parser, playback := (s.keeping kept).playback } ?_ ?_)
    · rcases hparsed with ⟨rfl, hdefault⟩ | ⟨v, rfl, hread⟩
      · exact .inl ⟨rfl, by rw [hdefault]⟩
      · exact .inr ⟨v, rfl, congrArg (Option.map _) hread⟩
    · rcases hplayed with ⟨rfl, hdefault⟩ | ⟨v, rfl, hread⟩
      · exact .inl ⟨rfl, by rw [hdefault]⟩
      · exact .inr ⟨v, rfl, congrArg (Option.map _) hread⟩
    · rw [Wording.recentEntries, ← List.append_nil (Settings.entryIf _ _ _)]
      refine .entryIf _ (congrArg (Option.map _) hrecent) (.of_eq ?_)
      cases hkept : kept .recentFiles <;> simp [keeping, hkept]
  have hkeys : ((sections view).map Setting.key).Nodup := by
    have hdistinct : ["parser".toList, "playback".toList, "recent_files".toList].Nodup := by decide
    exact hdistinct
  exact hsaid.readSection? commute_sections hkeys (hw.table v members htable) hperm hothers

/-! ## 3. Writing them -/

theorem mem_entryIf {kept : Bool} {key : Text} {v : δ} {entry : Text × δ}
    (h : entry ∈ entryIf kept key v) : entry = (key, v) := by
  cases kept with
  | true => exact List.mem_singleton.mp h
  | false => cases h

section Written

variable (kept : SettingKey → Bool) (s : Settings)

/-- A document with both sections. -/
theorem Wording.isPartial_of_isTable {kept : SettingKey → Bool} {s : Settings}
    {parser playback v : δ} {members : List (Text × δ)}
    (hparser : w.IsTable parser (w.parserEntries kept s))
    (hplayback : w.IsTable playback (w.playbackEntries kept s)) (hv : w.IsTable v members)
    (hmembers : members.Perm (("parser".toList, parser) :: ("playback".toList, playback) ::
      w.recentEntries kept s)) : w.IsPartial kept s v := by
  have hnone {names : List Text} : ∀ entry ∈ ([] : List (Text × δ)), entry.1 ∉ names := by simp
  have hself (entries : List (Text × δ)) : entries.Perm (entries ++ []) := by
    rw [List.append_nil]
  exact ⟨_, _, .present ⟨_, [], hparser, hself _, hnone⟩,
    .present ⟨_, [], hplayback, hself _, hnone⟩, members, [], hv, hmembers.trans (hself _), hnone⟩

theorem isPlain_jsonObject {members : List (Text × Json)} (h : ∀ m ∈ members, m.2.IsPlain) :
    (jsonObject members).IsPlain := by
  constructor
  · rintro m hm
    obtain ⟨member, -, rfl⟩ := List.mem_map.mp hm
    exact ⟨member.1, rfl⟩
  · rintro m hm
    obtain ⟨member, hmember, rfl⟩ := List.mem_map.mp hm
    exact h member hmember

theorem exists_isPartial_json : ∃ t, Format.IsPartial kept s t .json := by
  have hparser : ∀ m ∈ jsonWording.parserEntries kept s, m.2.IsPlain := by
    intro m hm
    rcases List.mem_append.mp hm with hm | hm <;> rw [mem_entryIf hm] <;> exact .text _
  have hplayback : ∀ m ∈ jsonWording.playbackEntries kept s, m.2.IsPlain := by
    intro m hm
    rcases List.mem_append.mp hm with hm | hm <;> rw [mem_entryIf hm]
    · exact .count _
    · exact .bool _
  have hrecent : ∀ m ∈ jsonWording.recentEntries kept s, m.2.IsPlain := by
    intro m hm
    rw [mem_entryIf hm]
    refine .array fun v hv => ?_
    obtain ⟨t, -, rfl⟩ := List.mem_map.mp hv
    exact .text t
  have hmembers : ∀ m ∈ ("parser".toList, jsonObject (jsonWording.parserEntries kept s)) ::
      ("playback".toList, jsonObject (jsonWording.playbackEntries kept s)) ::
      jsonWording.recentEntries kept s, m.2.IsPlain :=
    List.forall_mem_cons.mpr ⟨isPlain_jsonObject hparser,
      List.forall_mem_cons.mpr ⟨isPlain_jsonObject hplayback, hrecent⟩⟩
  exact ⟨_, _, Json.read?_write (isPlain_jsonObject hmembers),
    Wording.isPartial_of_isTable rfl rfl rfl (List.Perm.refl _)⟩

/-- A line that is there or not. -/
def lineIf (kept : Bool) (key written : Text) : Text :=
  if kept then Toml.entryLine key written else []

theorem writes_lineIf {key written : Text} {v : Toml.Value} (kept : Bool)
    (h : Toml.IsLine (Toml.entryLine key written) key v) :
    Toml.Writes (lineIf kept key written) (entryIf kept key v) := by
  cases kept with
  | true => simpa [lineIf, entryIf] using Toml.Writes.cons h .nil
  | false => exact .nil

theorem entryLine_ne_nil (key written : Text) : Toml.entryLine key written ≠ [] := by
  simp [Toml.entryLine]

/-- The lines of the section that says how programs are read. -/
def parserLines : Text :=
  lineIf (kept .coordinateMode) "coordinate_mode".toList
      (Toml.writeString s.parser.mode.name.toList) ++
    lineIf (kept .commentChar) "comment_char".toList (Toml.writeString [s.parser.comment])

/-- The lines of the section that says how programs are shown. -/
def playbackLines : Text :=
  lineIf (kept .arcSegments) "arc_segments".toList (Nat.toDigits 10 s.playback.arcSegments.toNat) ++
    lineIf (kept .startAtEnd) "start_at_end".toList
      (if s.playback.startAtEnd then "true" else "false").toList

/-- The line of the list of recent files. -/
def recentLine : Text :=
  lineIf (kept .recentFiles) "recent_files".toList (tomlTexts s.recentFiles)

/-- The settings that are kept as a TOML text, with the list of recent files in front. -/
def partialToml : Text :=
  recentLine kept s ++ (Toml.headerLine "parser".toList ++ (parserLines kept s ++
    (Toml.headerLine "playback".toList ++ (playbackLines kept s ++ []))))

theorem writes_parserLines :
    Toml.Writes (parserLines kept s) (tomlWording.parserEntries kept s) :=
  (writes_lineIf _ ⟨entryLine_ne_nil _ _, readLine?_text ⟨by decide, by decide⟩⟩).append
    (writes_lineIf _ ⟨entryLine_ne_nil _ _, readLine?_text ⟨by decide, by decide⟩⟩)

theorem writes_playbackLines :
    Toml.Writes (playbackLines kept s) (tomlWording.playbackEntries kept s) :=
  (writes_lineIf _ ⟨entryLine_ne_nil _ _, readLine?_count ⟨by decide, by decide⟩⟩).append
    (writes_lineIf _ ⟨entryLine_ne_nil _ _, readLine?_flag ⟨by decide, by decide⟩⟩)

theorem writes_recentLine : Toml.Writes (recentLine kept s) (tomlWording.recentEntries kept s) :=
  writes_lineIf _ ⟨entryLine_ne_nil _ _, readLine?_texts ⟨by decide, by decide⟩⟩

theorem nodup_entryIf_append {kept kept' : Bool} {key key' : Text} (h : key ≠ key') (v v' : δ) :
    ((entryIf kept key v ++ entryIf kept' key' v').map Prod.fst).Nodup := by
  cases kept <;> cases kept' <;> simp [entryIf, h]

/-- **The text is read as its entries and tables.** -/
theorem read?_partialToml :
    Toml.read? (partialToml kept s) =
      some (tomlWording.recentEntries kept s ++
        [("parser".toList, .table .header (tomlWording.parserEntries kept s))] ++
        [("playback".toList, .table .header (tomlWording.playbackEntries kept s))]) := by
  have hkeys : (tomlWording.recentEntries kept s).map Prod.fst = [] ∨
      (tomlWording.recentEntries kept s).map Prod.fst = ["recent_files".toList] := by
    unfold Wording.recentEntries
    cases kept .recentFiles
    · exact .inl rfl
    · exact .inr rfl
  have hmark : (partialToml kept s).head? ≠ some (Char.ofNat 0xFEFF) := by
    unfold partialToml recentLine
    cases kept .recentFiles <;> simp [lineIf, Toml.entryLine, Toml.headerLine]
  refine Toml.Reads.read? ?_ hmark
  refine Toml.Reads.lines id (fun _ _ => by simp [Toml.atTable]) (writes_recentLine kept s) [] ?_ ?_
  · rcases hkeys with h | h <;> rw [List.nil_append, h] <;> simp
  refine Toml.Reads.section ⟨by decide, by decide⟩ ?_ (writes_parserLines kept s)
    (nodup_entryIf_append (by decide) _ _) ?_
  · rcases hkeys with h | h <;> rw [id, List.nil_append, h] <;> decide
  refine Toml.Reads.section ⟨by decide, by decide⟩ ?_ (writes_playbackLines kept s)
    (nodup_entryIf_append (by decide) _ _) (Toml.Reads.nil _)
  rcases hkeys with h | h <;> rw [id, List.nil_append, List.map_append, h] <;> simp

theorem exists_isPartial_toml : ∃ t, Format.IsPartial kept s t .toml := by
  refine ⟨_, _, read?_partialToml kept s,
    Wording.isPartial_of_isTable ⟨.header, rfl⟩ ⟨.header, rfl⟩ ⟨.header, rfl⟩ ?_⟩
  rw [List.append_assoc]
  exact List.perm_append_comm

end Written

end Settings

/-! ## 4. The statement -/

/-- **Documents that leave settings out load with the default ones for the rest.**

Keep any of the values of good settings in a JSON or TOML document, each once and in any order, and
say anything else in it under keys that name no setting, in the document or in its sections.  A file
with this document loads, and what it loads as has the values that were kept and the default ones
for all others.  There is such a document in both formats, whatever is kept.  A section of which
nothing is kept, whether it is absent or there without any of its keys, is the default section. -/
theorem partial_documents_merge {s : Settings} (hs : s.fault? = none) (kept : SettingKey → Bool) :
    (∀ format t, Format.IsPartial kept s t format →
      ∀ path bytes, Format.ofPath? path = some format → Text.decode? bytes = some t →
        Settings.load path (some (.file bytes)) = .ok (s.keeping kept)) ∧
    (∀ format, ∃ t, Format.IsPartial kept s t format) ∧
    (kept .coordinateMode = false → kept .commentChar = false → (s.keeping kept).parser = {}) ∧
    (kept .arcSegments = false → kept .startAtEnd = false → (s.keeping kept).playback = {}) := by
  refine ⟨?loaded, ?written, ?parser, ?playback⟩
  case loaded =>
    intro format t hpartial path bytes hformat hdecode
    refine load_eq_ok_iff.mpr
      ⟨bytes, t, format, rfl, hdecode, hformat, ?_, Settings.fault?_keeping hs kept⟩
    cases format with
    | json =>
      obtain ⟨v, hread, hv⟩ := hpartial
      rw [Format.read?, hread, Option.bind_some, hv.ofDocument? Settings.fits_json]
    | toml =>
      obtain ⟨members, hread, hv⟩ := hpartial
      rw [Format.read?, hread, Option.bind_some, hv.ofDocument? Settings.fits_toml]
  case written =>
    intro format
    cases format with
    | json => exact Settings.exists_isPartial_json kept s
    | toml => exact Settings.exists_isPartial_toml kept s
  case parser =>
    intro hmode hcomment
    simp [Settings.keeping, hmode, hcomment]
  case playback =>
    intro harcs hend
    simp [Settings.keeping, harcs, hend]

/-- A comment character under a key with points, a time that is no setting, and one of the sections
absent. -/
theorem partial_documents_merge_dotted :
    let s : Settings := { parser := { mode := .modal, comment := '%' }, recentFiles := [['a']] }
    let kept (key : SettingKey) : Bool := key == .commentChar || key == .recentFiles
    let t : Text := "parser.comment_char = '%'\nsaved = 07:32:00\nrecent_files = [ 'a', ]".toList
    s.fault? = none ∧ Format.IsPartial kept s t .toml ∧
      Settings.load "c.toml".toList (some (.file (Text.encode t))) =
        .ok { parser := { mode := .reset, comment := '%' }, recentFiles := [['a']] } := by
  intro s kept t
  have hs : s.fault? = none := by decide +kernel
  have hread : Toml.read? t = some
      [("parser".toList, .table .dotted [("comment_char".toList, .text ['%'])]),
       ("saved".toList, .moment), ("recent_files".toList, .array [.text ['a']])] := by
    rfl
  have hpartial : Format.IsPartial kept s t .toml := by
    refine ⟨_, hread, _, _, .present ⟨_, [], ⟨.dotted, rfl⟩, List.Perm.refl _, by simp⟩,
      .absent rfl, _, [("saved".toList, .moment)], ⟨.header, rfl⟩, ?_, by decide⟩
    exact (List.Perm.swap _ _ _).cons _
  refine ⟨hs, hpartial, ?_⟩
  exact (partial_documents_merge hs kept).1 .toml t hpartial "c.toml".toList _ (by decide +kernel)
    (Text.decode?_encode t)

end Motion
