/-
# Refusals

Saving checks everything that can be checked before it touches the store, and in one order: the
values, the format, the paths (`HeldSettings.IsRefused`).  So a refusal has one cause, and the store
after it is the store before it.  What is not refused can still fail, but then it is the store that
refuses (`HeldSettings.save_accepted`).

Loading gives only settings that are good, and the settings in memory change in no other way but by
opening a file, which changes no value that can be bad.  With that the settings of a session are
good at any time, whatever others leave in the store, and saving them is never refused for their
values.
-/
import Motion.Proofs.CommandLine.Outcome
import Motion.Proofs.Settings.Held

namespace Motion

/-! ## 1. Saving -/

theorem Format.ofPath?_eq_none_iff {path : Text} :
    Format.ofPath? path = none ↔ Path.extension? path ≠ some "json".toList ∧
      Path.extension? path ≠ some "toml".toList := by
  constructor
  · intro hnone
    refine ⟨fun h => ?_, fun h => ?_⟩ <;>
      simp [Format.ofPath?, h] at hnone
  · rintro ⟨hjson, htoml⟩
    unfold Format.ofPath?
    split
    case h_1 h => exact absurd h hjson
    case h_2 h => exact absurd h htoml
    case h_3 => rfl

namespace HeldSettings

/-- The cause for which saving is refused, whatever the store holds.  A value that is no good comes
first, then a format that is not known, and then a recent file that is no text. -/
inductive IsRefused (h : HeldSettings) (path : Text) : SavingError → Prop where
  | value {f : SettingsFault} (hfault : h.fault? = some f) : IsRefused h path (.settings (.fault f))
  | format (hgood : h.fault? = none) (hjson : Path.extension? path ≠ some "json".toList)
      (htoml : Path.extension? path ≠ some "toml".toList) :
      IsRefused h path (.settings (.unknownFormat (Path.extension? path)))
  | recent (hgood : h.fault? = none) {format : Format} (hformat : Format.ofPath? path = some format)
      {p : SystemPath} (hp : p ∈ h.recentFiles) (hbytes : Text.isUtf8 p = false) :
      IsRefused h path (.unwritable format)

variable {h : HeldSettings} {path : Text} {store after : Storage} {e : SavingError}

theorem mapM_decode?_eq_none_iff {paths : List SystemPath} :
    paths.mapM Text.decode? = none ↔ ∃ p ∈ paths, Text.isUtf8 p = false := by
  induction paths with
  | nil => simp
  | cons p paths ih =>
    rw [List.exists_mem_cons_iff, ← ih, List.mapM_cons, Text.decode?]
    cases Text.isUtf8 p <;> cases hrest : paths.mapM Text.decode? <;> simp

theorem settings?_eq_none_iff :
    h.settings? = none ↔ ∃ p ∈ h.recentFiles, Text.isUtf8 p = false := by
  rw [settings?, Option.map_eq_none_iff, mapM_decode?_eq_none_iff]

/-- **A refusal touches nothing.** -/
theorem IsRefused.save_eq (hrefused : h.IsRefused path e) (store : Storage) :
    h.save path store = (store, .error e) := by
  unfold save
  cases hrefused with
  | value hfault => rw [hfault]
  | format hgood hjson htoml =>
    have hnone : Format.ofPath? path = none := Format.ofPath?_eq_none_iff.mpr ⟨hjson, htoml⟩
    rw [hgood, Settings.formatOf, hnone]
  | recent hgood hformat hp hbytes =>
    have hpaths : h.settings? = none := settings?_eq_none_iff.mpr ⟨_, hp, hbytes⟩
    rw [hgood, formatOf_eq_ok_iff.mpr hformat, hpaths]

/-- Settings that can be saved at a path, if the store allows it: good ones, a known format, and
texts for paths. -/
structure IsAccepted (h : HeldSettings) (path : Text) : Prop where
  good : h.fault? = none
  format : Path.extension? path = some "json".toList ∨ Path.extension? path = some "toml".toList
  recent : ∀ p ∈ h.recentFiles, Text.isUtf8 p = true

theorem refused_or_accepted (h : HeldSettings) (path : Text) :
    (∃ e, h.IsRefused path e) ∨ h.IsAccepted path := by
  cases hfault : h.fault? with
  | some f => exact .inl ⟨_, .value hfault⟩
  | none =>
    by_cases hextension :
      Path.extension? path = some "json".toList ∨ Path.extension? path = some "toml".toList
    · by_cases hrecent : ∃ p ∈ h.recentFiles, Text.isUtf8 p = false
      · obtain ⟨format, hformat⟩ := Settings.exists_format hextension
        obtain ⟨p, hp, hbytes⟩ := hrecent
        exact .inl ⟨_, .recent hfault hformat hp hbytes⟩
      · refine .inr ⟨hfault, hextension, fun p hp => ?_⟩
        exact Bool.not_eq_false _ ▸ fun hbytes => hrecent ⟨p, hp, hbytes⟩
    · obtain ⟨hjson, htoml⟩ := not_or.mp hextension
      exact .inl ⟨_, .format hfault hjson htoml⟩

/-- Once there is a text to write, only the store can refuse. -/
theorem save_of_saved {s : Settings} {t : Text} (hsaved : Settings.saved s path = .ok t)
    (store : Storage) :
    (s.save path store).2 = .ok t ∨ ∃ reason, (s.save path store).2 = .error (.storage reason) := by
  unfold Settings.save
  rw [hsaved]
  match store.makeDirectories (Path.directory path) with
  | (made, false) => exact .inr ⟨_, rfl⟩
  | (made, true) =>
    cases hwrite : made.write? path (Text.encode t) with
    | none => exact .inr ⟨"cannot write the file", by simp only [hwrite]⟩
    | some after => exact .inl (by simp only [hwrite])

/-- **What is not refused can fail only by the store.** -/
theorem save_accepted (haccepted : h.IsAccepted path)
    (hsave : h.save path store = (after, .error e)) :
    ∃ reason, e = .settings (.storage reason) := by
  obtain ⟨format, hformat⟩ := Settings.exists_format haccepted.format
  obtain ⟨s, hs⟩ : ∃ s, h.settings? = some s := by
    refine Option.ne_none_iff_exists'.mp fun hnone => ?_
    obtain ⟨p, hp, hbytes⟩ := settings?_eq_none_iff.mp hnone
    rw [haccepted.recent p hp] at hbytes
    cases hbytes
  have hgood : s.fault? = none := by
    obtain ⟨paths, -, rfl⟩ := Option.map_eq_some_iff.mp hs
    exact haccepted.good
  have hsaved : Settings.saved s path = .ok (format.write s) := by
    rw [Settings.saved, Settings.check, hgood, formatOf_eq_ok_iff.mpr hformat]
    rfl
  simp only [save, haccepted.good, formatOf_eq_ok_iff.mpr hformat, hs, Prod.mk.injEq] at hsave
  rcases save_of_saved hsaved store with hok | ⟨reason, herror⟩
  · rw [hok] at hsave
    cases hsave.2
  · rw [herror] at hsave
    exact ⟨reason, (Except.error.inj hsave.2).symm⟩

end HeldSettings

/-! ## 2. Loading -/

namespace Session

/-- What an event finds that loads settings.  Nothing is found if there is an error. -/
inductive Finds (σ : Session) : Event → Option Settings → Prop where
  | file (path : Text) :
      Finds σ (.load path) (Settings.load path (σ.store.look path)).toOption
  | nowhere : Finds σ (.loadDefault none) none
  | default (directory : Text) :
      Finds σ (.loadDefault (some directory))
        (Settings.loadDefault (Settings.defaultPath directory)
          (σ.store.look (Settings.defaultPath directory))).toOption

variable {σ : Session} {event : Event} {s : Settings}

theorem toOption_eq_some_iff {ε β : Type} {x : Except ε β} {b : β} :
    x.toOption = some b ↔ x = .ok b := by
  cases x <;> simp [Except.toOption]

theorem fault?_of_load {path : Text} {node : Option Node}
    (h : Settings.load path node = .ok s) : s.fault? = none := by
  obtain ⟨_, _, _, -, -, -, -, hgood⟩ := load_eq_ok_iff.mp h
  exact hgood

theorem fault?_of_loadDefault {path : Text} {node : Option Node}
    (h : Settings.loadDefault path node = .ok s) : s.fault? = none := by
  have hcases := Run.loadDefault_eq_ok_iff.mp h
  split at hcases
  · exact fault?_of_load (load_eq_ok_iff.mpr hcases)
  · rw [hcases]
    decide +kernel

/-- **What is found is good.** -/
theorem Finds.fault?_eq_none (h : σ.Finds event (some s)) : s.fault? = none := by
  generalize hfound : some s = found at h
  cases h with
  | file path => exact fault?_of_load (toOption_eq_some_iff.mp hfound.symm)
  | nowhere => cases hfound
  | default directory => exact fault?_of_loadDefault (toOption_eq_some_iff.mp hfound.symm)

/-- Loading takes what is found, and changes nothing else. -/
theorem Finds.handle_eq {found : Option Settings} (h : σ.Finds event found) :
    σ.handle event = { σ with held := (found.map HeldSettings.ofSettings).getD σ.held } := by
  cases h with
  | file path =>
    rw [handle]
    cases Settings.load path (σ.store.look path) <;> rfl
  | nowhere => rfl
  | default directory =>
    have hload : Settings.loadOrDefault σ.store.look (Settings.defaultPath? (some directory)) =
        (Settings.loadDefault (Settings.defaultPath directory)
          (σ.store.look (Settings.defaultPath directory))).mapError .settings := rfl
    simp only [handle, hload]
    cases Settings.loadDefault (Settings.defaultPath directory)
      (σ.store.look (Settings.defaultPath directory)) <;> rfl

/-! ## 3. A session -/

/-- An event that loads finds something or nothing; any other one keeps the values. -/
theorem finds_or_keeps (σ : Session) (event : Event) :
    (∃ found, σ.Finds event found) ∨ (σ.handle event).held.fault? = σ.held.fault? := by
  cases event with
  | load path => exact .inl ⟨_, .file path⟩
  | loadDefault directory? =>
    cases directory? with
    | none => exact .inl ⟨_, .nowhere⟩
    | some directory => exact .inl ⟨_, .default directory⟩
  | save path => exact .inr rfl
  | addRecent path => exact .inr rfl
  | changed store => exact .inr rfl

/-- **One event keeps the settings good.** -/
theorem fault?_handle (hgood : σ.held.fault? = none) (event : Event) :
    (σ.handle event).held.fault? = none := by
  rcases finds_or_keeps σ event with ⟨found, hfound⟩ | hkeeps
  · rw [hfound.handle_eq]
    cases found with
    | none => exact hgood
    | some s => exact hfound.fault?_eq_none
  · rw [hkeeps, hgood]

theorem fault?_default : ({} : HeldSettings).fault? = none := by decide +kernel

/-- **Settings that were good are good at any time.** -/
theorem fault?_run (hgood : σ.held.fault? = none) (events : List Event) :
    (σ.run events).held.fault? = none := by
  induction events generalizing σ with
  | nil => exact hgood
  | cons event events ih => exact ih (fault?_handle hgood event)

end Session

/-! ## 4. The statement -/

/-- **Refusals touch nothing.**

Where saving settings in memory fails, it either was refused for a cause that `IsRefused` gives, and
then the store is as it was before, or it is the store that failed.  The cause depends on the
settings and the path alone, and what has one is refused, whatever the store holds; a value that is
no good is a cause whatever the path.  Settings that were loaded are saved, and files are opened in
them, as if they had never been in memory.

Loading leaves the store as it is.  If there is an error, the settings stay, and if there is none,
they are good.

So whatever happens in a session that starts with the default settings, the settings in memory are
good.  Saving them can then fail only by the store, if the path names one of the two formats and
the recent files are texts. -/
theorem refusals_touch_nothing :
    (∀ (h : HeldSettings) (path : Text) (store after : Storage) (e : SavingError),
      h.save path store = (after, .error e) →
        (after = store ∧ h.IsRefused path e) ∨ ∃ reason, e = .settings (.storage reason)) ∧
    (∀ (h : HeldSettings) (path : Text) (e : SavingError), h.IsRefused path e →
      ∀ store, h.save path store = (store, .error e)) ∧
    (∀ (h : HeldSettings) (f : SettingsFault), h.fault? = some f →
      ∀ path store, h.save path store = (store, .error (.settings (.fault f)))) ∧
    (∀ (s : Settings) (path : Text),
      (∀ store, (HeldSettings.ofSettings s).save path store =
        ((s.save path store).1, (s.save path store).2.mapError .settings)) ∧
      (HeldSettings.ofSettings s).addRecent (Text.encode path) =
        .ofSettings { s with recentFiles := Settings.addRecent path s.recentFiles }) ∧
    (∀ (σ : Session) (event : Event) (found : Option Settings), σ.Finds event found →
      (σ.handle event).store = σ.store ∧ (found = none → σ.handle event = σ) ∧
        ∀ s, found = some s → (σ.handle event).held = .ofSettings s ∧ s.fault? = none) ∧
    ∀ (start : Storage) (events : List Event),
      let σ := ({ store := start } : Session).run events
      σ.held.fault? = none ∧
        ∀ path, (Path.extension? path = some "json".toList ∨
            Path.extension? path = some "toml".toList) →
          (∀ p ∈ σ.held.recentFiles, Text.isUtf8 p = true) →
          ∀ store after e, σ.held.save path store = (after, .error e) →
            ∃ reason, e = .settings (.storage reason) := by
  refine ⟨?failed, ?refused, ?value, ?loaded, ?found, ?session⟩
  case failed =>
    intro h path store after e hsave
    rcases h.refused_or_accepted path with ⟨e', hrefused⟩ | haccepted
    · rw [hrefused.save_eq store, Prod.mk.injEq] at hsave
      obtain ⟨rfl, herror⟩ := hsave
      exact .inl ⟨rfl, Except.error.inj herror ▸ hrefused⟩
    · exact .inr (HeldSettings.save_accepted haccepted hsave)
  case refused => exact fun h path e hrefused store => hrefused.save_eq store
  case value =>
    intro h f hfault path store
    exact (HeldSettings.IsRefused.value hfault).save_eq store
  case loaded =>
    intro s path
    exact ⟨HeldSettings.save_ofSettings s path, HeldSettings.addRecent_ofSettings s path⟩
  case found =>
    intro σ event found hfound
    rw [hfound.handle_eq]
    refine ⟨rfl, ?_, ?_⟩
    · rintro rfl
      rfl
    · rintro s rfl
      exact ⟨rfl, hfound.fault?_eq_none⟩
  case session =>
    intro start events σ
    have hdefault : ({ store := start } : Session).held.fault? = none := Session.fault?_default
    have hgood : σ.held.fault? = none := Session.fault?_run hdefault events
    refine ⟨hgood, ?_⟩
    intro path hextension hrecent store after e hsave
    exact HeldSettings.save_accepted ⟨hgood, hextension, hrecent⟩ hsave

/-- A recent file that is no text, bad values for a format that is not known, a file that gives no
steps to arcs, and a file in the place of a directory. -/
theorem refusals_touch_nothing_for_each_cause :
    let store : Storage := (Storage.mk [] []).put ["a.toml".toList]
      (.file (Text.encode "[playback]\narc_segments = 0".toList))
    let bytes : HeldSettings := { recentFiles := [[0xFF]] }
    let steps : HeldSettings := { playback := { arcSegments := 0 } }
    let session := Session.run { store := store } [.load "a.toml".toList, .addRecent [0x61]]
    bytes.save "new/b.toml".toList store = (store, .error (.unwritable .toml)) ∧
      steps.save "new/b.yaml".toList store = (store, .error (.settings (.fault .noArcSegments))) ∧
      Session.handle { store := store } (.load "a.toml".toList) = { store := store } ∧
      session.held = { recentFiles := [[0x61]] } ∧ session.held.fault? = none ∧
      ∃ after reason, session.held.save "a.toml/b.json".toList store =
        (after, .error (.settings (.storage reason))) := by
  intro store bytes steps session
  obtain ⟨-, hrefused, hvalue, -, hfound, hsession⟩ := refusals_touch_nothing
  have hnothing : Session.Finds { store := store } (.load "a.toml".toList) none := by
    have hload : (Settings.load "a.toml".toList (store.look "a.toml".toList)).toOption = none := by
      decide +kernel
    exact hload ▸ Session.Finds.file "a.toml".toList
  have hheld : session.held = { recentFiles := [[0x61]] } := by decide +kernel
  obtain ⟨hgood, hstorage⟩ := hsession store [.load "a.toml".toList, .addRecent [0x61]]
  have hbytes : bytes.IsRefused "new/b.toml".toList (.unwritable .toml) :=
    .recent (by decide +kernel) (by decide +kernel) (p := [0xFF]) List.mem_cons_self (by decide)
  refine ⟨hrefused bytes _ _ hbytes store, hvalue steps .noArcSegments (by decide +kernel) _ store,
    (hfound _ _ _ hnothing).2.1 rfl, hheld, hgood, ?_⟩
  have hfails : (session.held.save "a.toml/b.json".toList store).2.toOption = none := by
    decide +kernel
  cases hsave : session.held.save "a.toml/b.json".toList store with
  | mk after result =>
    cases result with
    | ok t =>
      rw [hsave] at hfails
      cases hfails
    | error e =>
      obtain ⟨reason, rfl⟩ := hstorage "a.toml/b.json".toList (.inl (by decide +kernel))
        (by decide +kernel) store after e hsave
      exact ⟨after, reason, rfl⟩

end Motion
