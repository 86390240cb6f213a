/-
# Settings as documents

Settings are written with all their sections and all the entries of these, so what is read back
depends on no default.  In what order the entries stand does not matter either, since each one sets
what its own key names: JSON has the recent files last, TOML has them first, and both documents say
the settings from which they were made (`read?_write`).
-/
import Motion.Proofs.Json.RoundTrip
import Motion.Proofs.Toml.Lines
import Motion.Settings.Formats

namespace Motion

namespace Settings

variable {δ σ : Type} {view : View δ}

/-! ## 1. Sections -/

/-- An entry sets what its key names. -/
theorem readEntries?_cons {settings : List (Setting δ σ)} {seen : List Text} {current next : σ}
    {key : Text} {s : Setting δ σ} {v : δ} {rest : List (Option Text × δ)}
    (hkey : findSetting? key settings = some s) (hseen : seen.contains key = false)
    (hset : s.set? v current = some next) :
    readEntries? settings seen current ((some key, v) :: rest) =
      readEntries? settings (key :: seen) next rest := by
  simp only [readEntries?, hkey, hseen, Bool.false_eq_true, if_false, hset, Option.bind_some]

theorem readSection?_of_entries {settings : List (Setting δ σ)} {default : σ} {v : δ}
    {entries : List (Option Text × δ)} (h : view.entries? v = some entries) :
    readSection? view settings default v = readEntries? settings [] default entries := by
  rw [readSection?, h]

/-- The section that says how programs are read. -/
theorem readSection?_options {v mode comment : δ} {o : Options}
    (hv : view.entries? v =
      some [(some "coordinate_mode".toList, mode), (some "comment_char".toList, comment)])
    (hmode : view.text? mode = some o.mode.name.toList)
    (hcomment : view.text? comment = some [o.comment]) :
    readSection? view (parserSettings view) {} v = some o := by
  have hreadMode : readMode? view mode = some o.mode := by
    simp only [readMode?, hmode, CoordinateMode.ofName?_name]
  have hreadChar : readChar? view comment = some o.comment := by
    simp only [readChar?, hcomment]
  rw [readSection?_of_entries hv,
    readEntries?_cons rfl rfl (congrArg (Option.map _) hreadMode),
    readEntries?_cons rfl rfl (congrArg (Option.map _) hreadChar)]
  rfl

/-- The section that says how programs are shown. -/
theorem readSection?_playbackOptions {v arcs whole : δ} {o : PlaybackOptions}
    (hv : view.entries? v =
      some [(some "arc_segments".toList, arcs), (some "start_at_end".toList, whole)])
    (harcs : view.count? arcs = some o.arcSegments)
    (hwhole : view.flag? whole = some o.startAtEnd) :
    readSection? view (playbackSettings view) {} v = some o := by
  rw [readSection?_of_entries hv,
    readEntries?_cons rfl rfl (congrArg (Option.map _) harcs),
    readEntries?_cons rfl rfl (congrArg (Option.map _) hwhole)]
  rfl

/-- The list of recent files. -/
theorem mapM_text? {write : Text → δ} (h : ∀ t, view.text? (write t) = some t) (ts : List Text) :
    (ts.map write).mapM view.text? = some ts := by
  induction ts with
  | nil => rfl
  | cons t ts ih => simp [h, ih]

/-- What the three sections of a document say. -/
structure Holds (view : View δ) (parser playback recent : δ) (s : Settings) : Prop where
  parser : readSection? view (parserSettings view) {} parser = some s.parser
  playback : readSection? view (playbackSettings view) {} playback = some s.playback
  recent : (view.items? recent).bind (List.mapM view.text?) = some s.recentFiles

section Orders

variable {v parser playback recent : δ} {s : Settings}

theorem Holds.ofDocument?_last (h : Holds view parser playback recent s)
    (hv : view.entries? v = some [(some "parser".toList, parser),
      (some "playback".toList, playback), (some "recent_files".toList, recent)]) :
    ofDocument? view v = some s := by
  rw [ofDocument?, readSection?_of_entries hv,
    readEntries?_cons rfl rfl (congrArg (Option.map _) h.parser),
    readEntries?_cons rfl rfl (congrArg (Option.map _) h.playback),
    readEntries?_cons rfl rfl (congrArg (Option.map _) h.recent)]
  rfl

theorem Holds.ofDocument?_first (h : Holds view parser playback recent s)
    (hv : view.entries? v = some [(some "recent_files".toList, recent),
      (some "parser".toList, parser), (some "playback".toList, playback)]) :
    ofDocument? view v = some s := by
  rw [ofDocument?, readSection?_of_entries hv,
    readEntries?_cons rfl rfl (congrArg (Option.map _) h.recent),
    readEntries?_cons rfl rfl (congrArg (Option.map _) h.parser),
    readEntries?_cons rfl rfl (congrArg (Option.map _) h.playback)]
  rfl

end Orders

theorem count?_toNat (n : UInt32) : count? n.toNat = some n := by
  rw [count?, if_pos n.toNat_lt_size, UInt32.ofNat_toNat]

/-! ## 2. JSON -/

theorem text?_jsonView (t : Text) : jsonView.text? (.text t) = some t := Mark.text?_ofText t

theorem entries?_jsonMembers (members : List (String × Json)) :
    jsonView.entries? (.object (members.map fun m => jsonMember m.1 m.2)) =
      some (members.map fun m => (some m.1.toList, m.2)) := by
  simp [jsonView, jsonMember, Mark.text?_ofText, Function.comp_def]

theorem isPlain_jsonMembers (members : List (String × Json)) (h : ∀ m ∈ members, m.2.IsPlain) :
    (Json.object (members.map fun m => jsonMember m.1 m.2)).IsPlain := by
  constructor
  · rintro m hm
    obtain ⟨member, -, rfl⟩ := List.mem_map.mp hm
    exact ⟨member.1.toList, rfl⟩
  · rintro m hm
    obtain ⟨member, hmember, rfl⟩ := List.mem_map.mp hm
    exact h member hmember

theorem isPlain_toJson (s : Settings) : s.toJson.IsPlain := by
  refine isPlain_jsonMembers [("parser", _), ("playback", _), ("recent_files", _)] ?_
  have hparser := isPlain_jsonMembers
    [("coordinate_mode", .text s.parser.mode.name.toList),
     ("comment_char", .text [s.parser.comment])]
    (by simp [Json.IsPlain.text])
  have hplayback := isPlain_jsonMembers
    [("arc_segments", .count s.playback.arcSegments.toNat),
     ("start_at_end", .bool s.playback.startAtEnd)]
    (by simp [Json.IsPlain.count, Json.IsPlain.bool])
  have hrecent : (Json.array (s.recentFiles.map .text)).IsPlain := by
    refine .array fun v hv => ?_
    obtain ⟨t, -, rfl⟩ := List.mem_map.mp hv
    exact .text t
  simp only [List.forall_mem_cons, List.not_mem_nil, false_imp_iff, implies_true, and_true]
  exact ⟨hparser, hplayback, hrecent⟩

theorem ofDocument?_toJson (s : Settings) : ofDocument? jsonView s.toJson = some s := by
  have hcount : jsonView.count? (.count s.playback.arcSegments.toNat) =
      some s.playback.arcSegments := by
    simp only [jsonView, Json.count, Text.readNatural?_toDigits, Option.bind_some, count?_toNat]
  refine Holds.ofDocument?_last (s := s) ⟨?_, ?_, ?_⟩
    (entries?_jsonMembers [("parser", _), ("playback", _), ("recent_files", _)])
  · exact readSection?_options (entries?_jsonMembers [("coordinate_mode", _), ("comment_char", _)])
      (text?_jsonView _) (text?_jsonView _)
  · exact readSection?_playbackOptions
      (entries?_jsonMembers [("arc_segments", _), ("start_at_end", _)]) hcount rfl
  · exact mapM_text? text?_jsonView s.recentFiles

end Settings

/-! ## 3. TOML -/

namespace Toml

/-- An item on a line of its own. -/
def itemLine (t : Text) : Text := '\n' :: ' ' :: ' ' :: ' ' :: ' ' :: (writeString t ++ [','])

/-- Items on lines of their own. -/
theorem readItems?_lines {depth turns : Nat} {ts : List Text} (h : ts.length < turns)
    (rest : Text) :
    readItems? (readValue? depth) turns (ts.flatMap itemLine ++ '\n' :: ']' :: rest) =
      some (ts.map .text, rest) := by
  induction ts generalizing turns with
  | nil =>
    obtain ⟨turns, rfl⟩ := Nat.exists_eq_succ_of_ne_zero (Nat.ne_zero_of_lt h)
    refine readItems?_end ?_
    rw [List.flatMap_nil, List.nil_append, skipLines?]
    exact skipLines?_cons rfl (by decide) (by decide) (by decide) rest
  | cons t ts ih =>
    obtain ⟨turns, rfl⟩ := Nat.exists_eq_succ_of_ne_zero (Nat.ne_zero_of_lt h)
    have hstart : skipLines? false ((t :: ts).flatMap itemLine ++ '\n' :: ']' :: rest) =
        some (writeString t ++ ',' :: (ts.flatMap itemLine ++ '\n' :: ']' :: rest)) := by
      rw [← skipLines?_writeString]
      simp [itemLine, skipLines?, isGap]
    rw [readItems?_comma hstart, ih (Nat.lt_of_succ_lt_succ h)]
    rfl

/-- The turns for an array are enough for its items. -/
theorem length_lt_itemLines (ts : List Text) (rest : Text) :
    ts.length < (ts.flatMap itemLine ++ '\n' :: ']' :: rest).length + 1 := by
  have hle := List.length_le_sum_of_one_le (ts.map fun t => (itemLine t).length)
    (by simp [itemLine])
  rw [List.length_map] at hle
  rw [List.length_append, List.length_flatMap]
  omega

/-- **The value of a list of texts**, however many there are. -/
theorem readValue?_tomlTexts (depth : Nat) (ts : List Text) (rest : Text) :
    readValue? (depth + 1) (Settings.tomlTexts ts ++ rest) =
      some (.array (ts.map .text), rest) := by
  match ts with
  | [] =>
    have hend (turns : Nat) :
        readItems? (readValue? depth) (turns + 1) (']' :: rest) = some ([], rest) :=
      readItems?_end (skipLines?_cons rfl (by decide) (by decide) (by decide) rest)
    rw [Settings.tomlTexts, List.cons_append, List.cons_append, List.nil_append, readValue?_array,
      hend]
    rfl
  | [t] =>
    have hlast (turns : Nat) :
        readItems? (readValue? depth) (turns + 1) (writeString t ++ ']' :: rest) =
          some ([.text t], rest) :=
      readItems?_last (skipLines?_writeString t _)
    rw [Settings.tomlTexts, List.cons_append, List.cons_append, List.append_assoc,
      List.singleton_append, readValue?_array, hlast]
    rfl
  | t :: t' :: ts =>
    have hform : Settings.tomlTexts (t :: t' :: ts) ++ rest =
        '[' :: ((t :: t' :: ts).flatMap itemLine ++ '\n' :: ']' :: rest) := by
      show '[' :: ((t :: t' :: ts).flatMap itemLine ++ "\n]".toList) ++ rest = _
      rw [List.cons_append, List.append_assoc]
      rfl
    rw [hform, readValue?_array, readItems?_lines (length_lt_itemLines _ rest)]
    rfl

end Toml

namespace Settings

open Toml in
/-- The table that the lines of settings make. -/
def members (s : Settings) : Members :=
  [("recent_files".toList, .array (s.recentFiles.map .text)),
   ("parser".toList, .table .header
     [("coordinate_mode".toList, .text s.parser.mode.name.toList),
      ("comment_char".toList, .text [s.parser.comment])]),
   ("playback".toList, .table .header
     [("arc_segments".toList, .whole s.playback.arcSegments.toNat),
      ("start_at_end".toList, .bool s.playback.startAtEnd)])]

theorem ofDocument?_members (s : Settings) :
    ofDocument? tomlView (.table .header s.members) = some s := by
  have hcount : tomlView.count? (.whole s.playback.arcSegments.toNat) =
      some s.playback.arcSegments := by
    simp [tomlView, count?_toNat]
  have htext (t : Text) : tomlView.text? (.text t) = some t := rfl
  refine Holds.ofDocument?_first (s := s) ⟨?_, ?_, ?_⟩ rfl
  · exact readSection?_options rfl rfl rfl
  · exact readSection?_playbackOptions rfl hcount rfl
  · exact mapM_text? htext s.recentFiles

theorem toToml_eq (s : Settings) :
    s.toToml = Toml.entryLine "recent_files".toList (tomlTexts s.recentFiles) ++
      ('\n' :: (Toml.headerLine "parser".toList ++
      (Toml.entryLine "coordinate_mode".toList (Toml.writeString s.parser.mode.name.toList) ++
      (Toml.entryLine "comment_char".toList (Toml.writeString [s.parser.comment]) ++
      ('\n' :: (Toml.headerLine "playback".toList ++
      (Toml.entryLine "arc_segments".toList (Nat.toDigits 10 s.playback.arcSegments.toNat) ++
      (Toml.entryLine "start_at_end".toList
        (if s.playback.startAtEnd then "true" else "false").toList ++ [])))))))) := by
  simp [toToml, tomlLine, Toml.entryLine, Toml.headerLine]

section Lines

open Toml

theorem head?_writeString (t : Text) : ∀ c ∈ (writeString t).head?, isGap c = false := by
  obtain ⟨c, u, hform, hc⟩ := exists_writeString_eq_cons t
  rw [hform]
  rintro d hd
  obtain rfl : c = d := Option.some.inj hd
  rcases hc with rfl | rfl <;> rfl

theorem isBare_of_mem_toDigits {n : Nat} {c : Char} (h : c ∈ Nat.toDigits 10 n) :
    isBare c = true := by
  have hdigit : c.isDigit = true := Nat.isDigit_of_mem_toDigits (by decide) (by decide) h
  simp [isBare, Char.isAlphanum, hdigit]

section Entries

variable {draft : Draft} {key rest : Text} {ms : Members}

/-- The line of a text. -/
theorem readLine?_text {t : Text} (h : IsBareKey key)
    (hassign : atTable (assign (.text t) false .header [key]) draft.header draft.members =
      some ms) :
    readLine? draft (entryLine key (writeString t) ++ rest) = some (⟨ms, draft.header⟩, rest) :=
  readLine?_entryLine h (head?_writeString t) (readValue?_writeString maxDepth t (ends_feed rest))
    hassign

/-- The line of a list of texts. -/
theorem readLine?_texts {ts : List Text} (h : IsBareKey key)
    (hassign : atTable (assign (.array (ts.map .text)) false .header [key]) draft.header
      draft.members = some ms) :
    readLine? draft (entryLine key (tomlTexts ts) ++ rest) = some (⟨ms, draft.header⟩, rest) := by
  have hhead : (tomlTexts ts).head? = some '[' := by
    match ts with
    | [] => rfl
    | [_] => rfl
    | _ :: _ :: _ => rfl
  refine readLine?_entryLine h (fun c hc => ?_) (readValue?_tomlTexts 78 ts _) hassign
  obtain rfl : '[' = c := Option.some.inj (hhead.symm.trans hc)
  rfl

/-- The line of a count. -/
theorem readLine?_count {n : UInt32} (h : IsBareKey key)
    (hassign : atTable (assign (.whole n.toNat) false .header [key]) draft.header draft.members =
      some ms) :
    readLine? draft (entryLine key (Nat.toDigits 10 n.toNat) ++ rest) =
      some (⟨ms, draft.header⟩, rest) :=
  readLine?_bare h Nat.toDigits_ne_nil (fun _ => isBare_of_mem_toDigits)
    (bareValue?_toDigits (n.toNat_lt_size.trans (by decide))) hassign

/-- The line of a flag. -/
theorem readLine?_flag {b : Bool} (h : IsBareKey key)
    (hassign : atTable (assign (.bool b) false .header [key]) draft.header draft.members =
      some ms) :
    readLine? draft (entryLine key (if b then "true" else "false").toList ++ rest) =
      some (⟨ms, draft.header⟩, rest) := by
  cases b with
  | true => exact readLine?_bare h (by decide) (List.all_eq_true.mp (by decide)) rfl hassign
  | false => exact readLine?_bare h (by decide) (List.all_eq_true.mp (by decide)) rfl hassign

end Entries

/-- **The lines of settings are read as their table.** -/
theorem read?_toToml (s : Settings) : Toml.read? s.toToml = some s.members := by
  have hmark : (s.toToml.head? == some (Char.ofNat 0xFEFF)) = false := by
    simp [toToml, tomlLine]
  obtain ⟨turns, hturns⟩ : ∃ turns, s.toToml.length + 1 = turns + 9 := by
    refine Nat.exists_eq_add_of_le' ?_
    simp [toToml, tomlLine]
  rw [read?, hmark, if_neg Bool.false_ne_true, hturns, toToml_eq]
  -- the members after each line are computed from those before
  rw [readLines?_cons (by simp [entryLine]) (readLine?_texts ⟨by decide, by decide⟩ rfl),
    readLines?_cons (by simp) (readLine?_feed _ _),
    readLines?_cons (by simp [headerLine]) (readLine?_headerLine ⟨by decide, by decide⟩ rfl),
    readLines?_cons (by simp [entryLine]) (readLine?_text ⟨by decide, by decide⟩ rfl),
    readLines?_cons (by simp [entryLine]) (readLine?_text ⟨by decide, by decide⟩ rfl),
    readLines?_cons (by simp) (readLine?_feed _ _),
    readLines?_cons (by simp [headerLine]) (readLine?_headerLine ⟨by decide, by decide⟩ rfl),
    readLines?_cons (by simp [entryLine]) (readLine?_count ⟨by decide, by decide⟩ rfl),
    readLines?_cons (by simp [entryLine]) (readLine?_flag ⟨by decide, by decide⟩ rfl)]
  exact readLines?_nil turns _

end Lines

end Settings

/-- **What is written in a format is read in that format** as the settings it was written from. -/
theorem Format.read?_write (format : Format) (s : Settings) :
    format.read? (format.write s) = some s := by
  cases format with
  | json =>
    rw [write, read?, Json.read?_write s.isPlain_toJson]
    exact s.ofDocument?_toJson
  | toml =>
    rw [write, read?, s.read?_toToml]
    exact s.ofDocument?_members

end Motion
