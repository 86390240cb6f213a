/-
# What a run comes to

A run prints help, or a whole report, or nothing, and it fails exactly in the last case
(`run_prints_all_or_nothing`).  Nothing in the way a run is put together says so: it prints as it
goes along, and a failure takes nothing back.  It holds because every step that can fail comes
before the first line.  Three of these hide their failures: a program that cannot be read is a
program without commands and a diagnostic, words that cannot be read are diagnostics too, and the
default settings are taken without a word where no file with others is found.  So this module says
what has to hold for a report in terms of the arguments and of what stands in the store
(`Run.Reports`), and that bad words make no difference to what is printed: neither whether there is
a report nor what is in it (`toolpath_ofText_congr`).  They are noted in the log (`run_heed`).
-/
import Motion.CommandLine.Run
import Motion.Proofs.CommandLine.Arguments
import Motion.Proofs.CommandLine.Playing
import Motion.Proofs.Program.Files
import Motion.Proofs.Program.SoundWords

namespace Motion

/-! ## 1. Steps that can fail -/

section Steps

variable {ε ε' β γ : Type} {x : Except ε β}

/-- Two things done one after the other succeed if both do. -/
theorem bind_eq_ok_iff {f : β → Except ε γ} {c : γ} :
    (x >>= f) = .ok c ↔ ∃ b, x = .ok b ∧ f b = .ok c := by
  cases x <;> simp [bind, Except.bind]

/-- In what words a failure is told makes no difference to success. -/
theorem mapError_eq_ok_iff {f : ε → ε'} {b : β} : x.mapError f = .ok b ↔ x = .ok b := by
  cases x <;> simp [Except.mapError]

end Steps

/-! ## 2. Settings and files -/

/-- A file stands there, readable or not. -/
def Node.isFile : Option Node → Bool
  | some (.file _) => true
  | some (.locked _) => true
  | _ => false

/-- What stands at a path is a text that says settings without a fault, in the format that the path
names. -/
def Settings.StandsAt (s : Settings) (path : Text) (node : Option Node) : Prop :=
  ∃ bytes text format, node = some (.file bytes) ∧ Text.decode? bytes = some text ∧
    Format.ofPath? path = some format ∧ format.read? text = some s ∧ s.fault? = none

theorem readText_eq_ok_iff {node : Option Node} {t : Text} :
    Settings.readText node = .ok t ↔
      ∃ bytes, node = some (.file bytes) ∧ Text.decode? bytes = some t := by
  rcases node with - | - | bytes | reason
  · simp [Settings.readText]
  · simp [Settings.readText]
  · cases h : Text.decode? bytes <;> simp [Settings.readText, h]
  · simp [Settings.readText]

theorem formatOf_eq_ok_iff {path : Text} {format : Format} :
    Settings.formatOf path = .ok format ↔ Format.ofPath? path = some format := by
  cases h : Format.ofPath? path <;> simp [Settings.formatOf, h]

theorem check_eq_ok_iff {s s' : Settings} :
    Settings.check s = .ok s' ↔ s = s' ∧ s.fault? = none := by
  cases h : s.fault? <;> simp [Settings.check, h]

theorem load_eq_ok_iff {path : Text} {node : Option Node} {s : Settings} :
    Settings.load path node = .ok s ↔ s.StandsAt path node := by
  unfold Settings.load Settings.StandsAt
  simp only [bind_eq_ok_iff, readText_eq_ok_iff, formatOf_eq_ok_iff]
  constructor
  · rintro ⟨t, ⟨bytes, hnode, hdecode⟩, format, hformat, hread⟩
    cases hsettings : format.read? t with
    | none => simp [hsettings] at hread
    | some s' =>
      rw [hsettings] at hread
      obtain ⟨rfl, hfault⟩ := check_eq_ok_iff.mp hread
      exact ⟨bytes, t, format, hnode, hdecode, hformat, hsettings, hfault⟩
  · rintro ⟨bytes, t, format, hnode, hdecode, hformat, hread, hfault⟩
    refine ⟨t, ⟨bytes, hnode, hdecode⟩, format, hformat, ?_⟩
    rw [hread]
    exact check_eq_ok_iff.mpr ⟨rfl, hfault⟩

namespace Run

variable {look : Text → Option Node} {defaultPath? : Option Text} {args : List Text}

/-- The settings of a run: those of the file that was asked for; or else those of the default file,
if there is one; or else the default ones.  The default file has a path only where there is a
directory for settings, and without one only settings that were asked for can be had. -/
def IsConfigured (look : Text → Option Node) (defaultPath? : Option Text) :
    Option Text → Settings → Prop
  | some path, s => s.StandsAt path (look path)
  | none, s => ∃ path, defaultPath? = some path ∧
    if Node.isFile (look path) then s.StandsAt path (look path) else s = {}

theorem loadDefault_eq_ok_iff {path : Text} {node : Option Node} {s : Settings} :
    Settings.loadDefault path node = .ok s ↔
      if Node.isFile node then s.StandsAt path node else s = {} := by
  rcases node with - | - | bytes | reason
  · simp [Settings.loadDefault, Node.isFile, eq_comm]
  · simp [Settings.loadDefault, Node.isFile, eq_comm]
  · exact load_eq_ok_iff
  · exact load_eq_ok_iff

theorem settings_eq_ok_iff {config : Option Text} {s : Settings} :
    settings look defaultPath? config = .ok s ↔ IsConfigured look defaultPath? config s := by
  cases config with
  | some path => exact mapError_eq_ok_iff.trans load_eq_ok_iff
  | none =>
    refine mapError_eq_ok_iff.trans ?_
    cases defaultPath? with
    | none => simp [Settings.loadOrDefault, IsConfigured]
    | some path =>
      have hload : Settings.loadOrDefault look (some path) = .ok s ↔
          Settings.loadDefault path (look path) = .ok s := mapError_eq_ok_iff
      rw [hload, loadDefault_eq_ok_iff]
      simp [IsConfigured]

/-! ## 3. Diagnostics -/

/-- **Diagnostics are taken in order** up to the first that is an error, and nothing is printed for
any of them. -/
theorem run_heed (ds : List Diagnostic) (w : Written) :
    (heed ds).run w =
      match ds.find? Diagnostic.isFileError with
      | none => .ok () (w.note (ds.map Diagnostic.noteLine))
      | some d => .error (.failed d.message)
          (w.note ((ds.takeWhile fun d => !d.isFileError).map Diagnostic.noteLine)) := by
  induction ds generalizing w with
  | nil => simp [heed]
  | cons d rest ih =>
    cases d with
    | badFile path reason =>
      have hfirst : Diagnostic.isFileError (.badFile path reason) = true := rfl
      simp [heed, Diagnostic.severity, hfirst]
    | badWord line text word reason =>
      have hfirst : Diagnostic.isFileError (.badWord line text word reason) = false := rfl
      simp only [heed, Diagnostic.severity, Console.run_bind_of_ok (Console.run_note _ w), ih,
        List.find?_cons, List.takeWhile_cons, hfirst]
      cases rest.find? Diagnostic.isFileError <;> simp

/-- A text that is read leaves no diagnostic about a file. -/
theorem find?_isFileError_ofText (o : Options) (t : Text) :
    (Simulation.ofText o t : Simulation Float).diagnostics.find? Diagnostic.isFileError = none := by
  refine List.find?_eq_none.mpr fun d hd => ?_
  have hmem : d ∈ (Program.ofText o t : Program Float).diagnostics := hd
  rw [Program.ofText_eq] at hmem
  obtain ⟨e, -, word, reason, rfl⟩ := exists_of_mem_warningsOf hmem
  exact Bool.false_ne_true

/-! ## 4. When there is a report -/

/-- Everything that a report needs: arguments that ask for one, settings, and a program file that
can be read. -/
structure Reports (look : Text → Option Node) (defaultPath? : Option Text) (args : List Text)
    (program : Text) (config : Option Text) (steps : Bool) (chosen : Settings)
    (bytes : List UInt8) : Prop where
  arguments : Invocation.ofArguments args = .ok (.simulate program config steps)
  settings : IsConfigured look defaultPath? config chosen
  file : look program = some (.file bytes)

/-- Help is asked for behind complete arguments of which at most one is a program. -/
def AsksForHelp (args : List Text) : Prop :=
  ∃ said arg rest, args = said.flatMap Argument.write ++ arg :: rest ∧
    Arguments.Allows {} said ∧ IsHelp arg

section Simulate

variable {program : Text} {config : Option Text} {steps : Bool} {chosen : Settings}

/-! ### One step after the other -/

theorem run_main_of_fault {fault : ArgumentFault} (h : Invocation.ofArguments args = .error fault)
    (w : Written) :
    (main look defaultPath? args).run w = .error (.failed fault.message) w := by
  have hfails :
      (Console.attempt ((Invocation.ofArguments args).mapError ArgumentFault.message)).run w =
        .error (.failed fault.message) w := by
    rw [h]
    exact Console.run_attempt_error fault.message w
  rw [main, Console.run_bind_of_error hfails]

/-- Arguments that say something are no stop. -/
theorem run_arguments {invocation : Invocation} (h : Invocation.ofArguments args = .ok invocation)
    (w : Written) :
    (Console.attempt ((Invocation.ofArguments args).mapError ArgumentFault.message)).run w =
      .ok invocation w := by
  rw [h]
  exact Console.run_attempt_ok invocation w

theorem run_main_of_help (h : Invocation.ofArguments args = .ok .help) (w : Written) :
    (main look defaultPath? args).run w = .error .done (w.print [usage]) := by
  rw [main, Console.run_bind_of_ok (run_arguments h w)]
  dsimp only
  rw [Console.run_bind_of_ok (Console.run_print usage w), Console.run_stop]

/-- With arguments that ask for a report, the settings come next. -/
theorem run_main_of_arguments
    (h : Invocation.ofArguments args = .ok (.simulate program config steps)) (w : Written) :
    (main look defaultPath? args).run w = (do
      let chosen ← Console.attempt (settings look defaultPath? config)
      let s := Simulation.ofFile chosen.parser program (Source.ofNode program (look program))
      heed s.diagnostics
      Report.print program steps chosen.playback s : Console Unit).run w := by
  rw [main, Console.run_bind_of_ok (run_arguments h w)]

theorem run_main_of_no_settings {message : String}
    (harguments : Invocation.ofArguments args = .ok (.simulate program config steps))
    (hsettings : settings look defaultPath? config = .error message) (w : Written) :
    (main look defaultPath? args).run w = .error (.failed message) w := by
  rw [run_main_of_arguments harguments, hsettings,
    Console.run_bind_of_error (Console.run_attempt_error message w)]

/-- With settings too, the rest is up to the program. -/
theorem run_main_of_settings
    (harguments : Invocation.ofArguments args = .ok (.simulate program config steps))
    (hsettings : settings look defaultPath? config = .ok chosen) (w : Written) :
    let s := Simulation.ofFile chosen.parser program (Source.ofNode program (look program))
    (main look defaultPath? args).run w =
      (heed s.diagnostics >>= fun _ => Report.print program steps chosen.playback s).run w := by
  rw [run_main_of_arguments harguments, hsettings,
    Console.run_bind_of_ok (Console.run_attempt_ok chosen w)]

/-- A program that is no file that can be read is a program with one diagnostic. -/
theorem run_main_of_no_file
    (harguments : Invocation.ofArguments args = .ok (.simulate program config steps))
    (hsettings : settings look defaultPath? config = .ok chosen)
    (hfile : ∀ bytes, look program ≠ some (.file bytes)) (w : Written) :
    ∃ message, (main look defaultPath? args).run w = .error (.failed message) w := by
  obtain ⟨reason, hdiagnostics⟩ : ∃ reason,
      (Simulation.ofFile chosen.parser program (Source.ofNode program (look program)) :
        Simulation Float).diagnostics = [.badFile program reason] := by
    rcases hnode : look program with - | - | bytes | reason
    case some.file => exact absurd hnode (hfile bytes)
    all_goals exact ⟨_, rfl⟩
  refine ⟨Diagnostic.message (.badFile program reason), ?_⟩
  rw [run_main_of_settings harguments hsettings, hdiagnostics]
  refine Console.run_bind_of_error ?_ _
  rw [run_heed]
  simp [Diagnostic.isFileError]

/-! ### What it comes to -/

theorem outcome_of_help (h : AsksForHelp args) :
    outcome look defaultPath? args = ⟨({} : Written).print [usage], none⟩ :=
  Console.outcome_of_run_done (run_main_of_help (ofArguments_eq_help_iff.mpr h) {})

/-- **A report is printed whole**, and the words that cannot be read are noted. -/
theorem outcome_of_reports {bytes : List UInt8}
    (h : Reports look defaultPath? args program config steps chosen bytes) :
    let s : Simulation Float := .ofText chosen.parser (Text.decode bytes)
    outcome look defaultPath? args =
      ⟨(({} : Written).note (s.diagnostics.map Diagnostic.noteLine)).print
        ((Report.whole program steps chosen.playback s).map String.ofList), none⟩ := by
  intro s
  have hread :
      Simulation.ofFile chosen.parser program (Source.ofNode program (look program)) = s := by
    rw [h.file, Source.ofNode, Simulation.ofFile, Program.ofFile_ofBytes]
    rfl
  have hheed (w : Written) :
      (heed s.diagnostics).run w = .ok () (w.note (s.diagnostics.map Diagnostic.noteLine)) := by
    rw [run_heed, find?_isFileError_ofText]
  refine Console.outcome_of_run_ok ?_
  rw [run_main_of_settings h.arguments (settings_eq_ok_iff.mpr h.settings), hread,
    Console.run_bind_of_ok (hheed {}), Report.run_print]

theorem code_of_reports {bytes : List UInt8}
    (h : Reports look defaultPath? args program config steps chosen bytes) :
    (outcome look defaultPath? args).code = 0 := by
  rw [outcome_of_reports h]
  rfl

theorem output_of_reports {bytes : List UInt8}
    (h : Reports look defaultPath? args program config steps chosen bytes) :
    (outcome look defaultPath? args).output = Text.unlines
      (Report.whole program steps chosen.playback (.ofText chosen.parser (Text.decode bytes))) := by
  rw [outcome_of_reports h]
  simp [Outcome.output, Written.print, Written.note, Function.comp_def]

end Simulate

/-- **All other runs fail before the first line.** -/
theorem exists_failure_of_neither (hhelp : ¬ AsksForHelp args)
    (hreports : ∀ program config steps chosen bytes,
      ¬ Reports look defaultPath? args program config steps chosen bytes) :
    ∃ message, outcome look defaultPath? args = ⟨{}, some message⟩ := by
  suffices hruns : ∃ message,
      (main look defaultPath? args).run {} = .error (.failed message) {} by
    obtain ⟨message, hrun⟩ := hruns
    exact ⟨message, Console.outcome_of_run_failed hrun⟩
  cases harguments : Invocation.ofArguments args with
  | error fault => exact ⟨fault.message, run_main_of_fault harguments {}⟩
  | ok invocation =>
    cases invocation with
    | help => exact absurd (ofArguments_eq_help_iff.mp harguments) hhelp
    | simulate program config steps =>
      cases hsettings : settings look defaultPath? config with
      | error message => exact ⟨message, run_main_of_no_settings harguments hsettings {}⟩
      | ok chosen =>
        refine run_main_of_no_file harguments hsettings ?_ {}
        intro bytes hfile
        exact hreports program config steps chosen bytes
          ⟨harguments, settings_eq_ok_iff.mp hsettings, hfile⟩

/-- Bad words make no difference to a report. -/
theorem whole_congr (program : Text) (steps : Bool) (chosen : Settings) {t t' : Text}
    (h : (codeLines chosen.parser.comment 1 t.lines).map (fun e => soundWords Float e.2) =
      (codeLines chosen.parser.comment 1 t'.lines).map fun e => soundWords Float e.2) :
    Report.whole program steps chosen.playback (.ofText chosen.parser t) =
      Report.whole program steps chosen.playback (.ofText chosen.parser t') := by
  obtain ⟨htoolpath, hcount⟩ := toolpath_ofText_congr chosen.parser h
  simp only [Report.whole, Report.heading, htoolpath, hcount]

end Run

/-! ## 5. The statement -/

/-- **A run prints everything or nothing.**

* Where help is asked for before anything is wrong with the arguments, it prints the usage.
* Where the arguments ask for a report, the settings can be had and the program file can be read, it
  prints the whole report: the heading, then with steps one line for every segment, numbered from 1
  and with the segment as a listing shows it, and last how many segments are visible, which is all
  or none.  The loop behind the steps ends by itself: more turns than there are segments change
  nothing.  Words of the program that cannot be read are noted in the log and make no difference to
  the output: with another program file whose lines have the same other words, it is the same.
* In all other cases it fails and prints nothing, also where it has no settings of its own and there
  is no directory for the default ones. -/
theorem run_prints_all_or_nothing (look : Text → Option Node) (defaultPath? : Option Text)
    (args : List Text) :
    let o := Run.outcome look defaultPath? args
    (Run.AsksForHelp args → o.code = 0 ∧ o.output = Text.unlines [usage.toList]) ∧
      (∀ program config steps chosen bytes,
        Run.Reports look defaultPath? args program config steps chosen bytes →
          let s : Simulation Float := .ofText chosen.parser (Text.decode bytes)
          let all := s.toolpath.segments.toList
          let seen := if steps || chosen.playback.startAtEnd then all else []
          let words (b : List UInt8) :=
            (codeLines chosen.parser.comment 1 (Text.decode b).lines).map fun e =>
              soundWords Float e.2
          let lines := Report.whole program steps chosen.playback s
          o.code = 0 ∧ o.output = Text.unlines lines ∧
          (∃ played : List Text,
            lines = Report.heading program s ++ played ++
              [Report.visibleText chosen.playback.arcSegments seen all.length] ∧
            (steps = false → played = []) ∧
            (steps = true → played.length = all.length ∧ ∀ k (hk : k < all.length),
              played[k]? = some (Report.stepText (k + 1) all[k])) ∧
            ∀ line ∈ lines.tail, '\n' ∉ line) ∧
          o.written.noted.toList = s.diagnostics.map Diagnostic.noteLine ∧
          (∀ turns, s.toolpath.size ≤ turns → ∀ w, ∃ ended after,
            (Report.playFrom turns (s.prepared chosen.playback).reset).run w = .ok ended after ∧
              (Report.play (s.prepared chosen.playback)).run w = .ok ended after ∧
              ended.isComplete) ∧
          ∀ look' bytes', Run.Reports look' defaultPath? args program config steps chosen bytes' →
            words bytes' = words bytes →
              (Run.outcome look' defaultPath? args).code = o.code ∧
                (Run.outcome look' defaultPath? args).output = o.output) ∧
      (¬ Run.AsksForHelp args →
        (∀ program config steps chosen bytes,
          ¬ Run.Reports look defaultPath? args program config steps chosen bytes) →
        o.code ≠ 0 ∧ o.output = []) := by
  intro o
  refine ⟨?help, ?reports, ?neither⟩
  case help =>
    intro hhelp
    have ho : o = ⟨({} : Written).print [usage], none⟩ := Run.outcome_of_help hhelp
    rw [ho]
    exact ⟨rfl, rfl⟩
  case reports =>
    intro program config steps chosen bytes h s all seen words lines
    have ho : o = ⟨(({} : Written).note (s.diagnostics.map Diagnostic.noteLine)).print
        (lines.map String.ofList), none⟩ := Run.outcome_of_reports h
    have houtput : o.output = Text.unlines lines := Run.output_of_reports h
    have hcode : o.code = 0 := Run.code_of_reports h
    have hnoted : o.written.noted.toList = s.diagnostics.map Diagnostic.noteLine := by
      rw [ho]
      simp [Written.print, Written.note]
    have hplayed := Report.exists_played program steps chosen.playback s
    refine ⟨hcode, houtput, hplayed, hnoted, ?ends, ?words⟩
    case ends =>
      intro turns hturns w
      refine Report.play_ends ?_ w
      rw [Toolpath.size, Report.segments_prepared]
      exact hturns
    case words =>
      intro look' bytes' h' hwords
      rw [houtput, Run.output_of_reports h', Run.whole_congr _ _ _ hwords]
      exact ⟨(Run.code_of_reports h').trans hcode.symm, rfl⟩
  case neither =>
    intro hhelp hreports
    obtain ⟨message, hfails⟩ := Run.exists_failure_of_neither hhelp hreports
    have ho : o = ⟨{}, some message⟩ := hfails
    rw [ho]
    exact ⟨Nat.one_ne_zero, rfl⟩

/-- A rapid move with a bad word, and a cut: played, with no settings anywhere. -/
theorem run_prints_all_or_nothing_two_segments :
    let bytes := Text.encode "G0 X1 Zz\nG1 X2 Y3\n".toList
    let look (path : Text) : Option Node := if path = ['p'] then some (.file bytes) else none
    let args := ["--steps".toList, ['p']]
    (Run.outcome look (some ['c']) args).code = 0 ∧
      (Run.outcome look (some ['c']) args).written.noted.toList =
        ["line 1: warning: Invalid parameter 'Zz' at line 1: invalid float literal " ++
          "in line: G0 X1 Zz"] ∧
      (Run.outcome look (some ['c']) args).output = Text.unlines
        (["program:  p",
          "commands: 2",
          "toolpath: 2 segments (moves=1, lines=1, arcs=0), cutting 3.162 mm, rapid 1.000 mm",
          "bounds:   X 1.000..2.000  Y 0.000..3.000  Z 0.000..0.000",
          "     1  move -> (1.000, 0.000, 0.000)",
          "     2  line (1.000, 0.000, 0.000) -> (2.000, 3.000, 0.000)",
          "visible:  2/2 segments, 1 strips, 2 vertices"].map String.toList) := by
  intro bytes look args
  have hreports : Run.Reports look (some ['c']) args ['p'] none true {} bytes :=
    ⟨by decide, ⟨['c'], rfl, by simp [look, Node.isFile]⟩, if_pos rfl⟩
  obtain ⟨hcode, houtput, -, hnoted, -⟩ :=
    (run_prints_all_or_nothing look (some ['c']) args).2.1 ['p'] none true {} bytes hreports
  rw [houtput, hnoted]
  refine ⟨hcode, ?_, congrArg Text.unlines ?_⟩
  · decide +kernel
  · decide +kernel

end Motion
