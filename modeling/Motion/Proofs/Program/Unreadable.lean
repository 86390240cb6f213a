/-
# A file error leaves no program

A file may turn out to be unreadable before its first line or behind any other, when part of the
program has been built already.  Nothing of that part is kept but its warnings: the program has no
commands, the tool path is empty, and the last diagnostic, the only error, says what happened
(`file_error_leaves_no_program`).

What has been built is the program of the lines that were delivered, as if the file had ended behind
them (`Program.ofFile_eq`).  The warnings are theirs, so the error is told apart from them by its
severity, and a program that could not be read from one without commands by its error.
-/
import Motion.Proofs.Program.Streaming

namespace Motion

/-! ## 1. How reading ends -/

namespace Source

/-- The lines that are delivered before the file ends, or reading fails. -/
def delivered : Except SourceError Source → List Text
  | .error _ => []
  | .ok source => source.pieces.map lineText

/-- Opening the file fails, or reading it does behind the lines that were delivered. -/
inductive Fails : Except SourceError Source → String → Prop where
  | opening (e : SourceError) : Fails (.error e) e.message
  | reading {source : Source} {reason : String} (h : source.failure = some reason) :
      Fails (.ok source) s!"Failed to read line {source.pieces.length + 1}: {reason}"

/-- What reading finds at a path fails unless a file stands there that can be read. -/
theorem exists_fails_ofNode_iff (path : Text) (node : Option Node) :
    (∃ reason, Fails (ofNode path node) reason) ↔ ∀ bytes, node ≠ some (.file bytes) := by
  constructor
  · rintro ⟨reason, h⟩ bytes rfl
    cases h with
    | reading hfailure => cases hfailure
  · intro h
    rcases node with _ | _ | bytes | reason
    · exact ⟨_, .opening _⟩
    · exact ⟨_, .opening _⟩
    · exact absurd rfl (h bytes)
    · exact ⟨_, .opening _⟩

end Source

/-! ## 2. What is kept -/

variable {α : Type} [Scalar α]

/-- The program of the lines that were delivered. -/
def Program.ofDelivered (o : Options) (opened : Except SourceError Source) : Program α :=
  .ofLines o.mode .origin (codeLines o.comment 1 (Source.delivered opened))

theorem severity_of_mem_warningsOf {lines : List (UInt32 × Text)} {d : Diagnostic}
    (h : d ∈ warningsOf α lines) : d.severity = .warning ∧ d.isFileError = false := by
  obtain ⟨e, -, word, reason, rfl⟩ := exists_of_mem_warningsOf h
  exact ⟨rfl, rfl⟩

/-- **The visit of a file**, from its first line to its end or to where it cannot be read. -/
theorem Source.visit_feed (o : Options) (source : Source) :
    source.visit (fun line raw s => (Loader.feed (α := α) o s line raw, none)) .start =
      (Loader.start.feedAll o 1 (delivered (.ok source)),
        match source.failure with
        | some reason =>
          .error s!"Failed to read line {source.pieces.length + 1}: {reason}"
        | none => .ok (source.pieces.foldl count ⟨0, 0, .utf8, 0, source.size⟩)) := by
  have hlines : (source.pieces.foldl count ⟨0, 0, .utf8, 0, source.size⟩).lines =
      source.pieces.length := by
    rw [foldl_count]
    exact Nat.zero_add _
  rw [visit, visitPieces_feed]
  cases source.failure with
  | none => rfl
  | some reason =>
    simp only [hlines]
    rfl

/-- **What loading a file comes to**, whether it can be read or not. -/
theorem Program.ofFile_eq (o : Options) (path : Text) (opened : Except SourceError Source) :
    (∀ reason, Source.Fails opened reason →
      (ofFile o path opened : Program α) =
        ⟨[], (ofDelivered o opened : Program α).diagnostics ++ [.badFile path reason]⟩) ∧
    ((∀ reason, ¬ Source.Fails opened reason) →
      (ofFile o path opened : Program α) = ofDelivered o opened) := by
  have hdelivered (source : Source) :
      (Loader.start.feedAll o 1 (Source.delivered (.ok source))).program =
        (ofDelivered o (.ok source) : Program α) := Loader.program_feedAll o .origin 1 _
  constructor
  · intro reason h
    cases h with
    | opening e => rfl
    | reading hfailure =>
      rw [ofFile, Source.visit_feed, hfailure]
      simp only [hdelivered]
  · intro h
    cases opened with
    | error e => exact absurd (.opening e) (h _)
    | ok source =>
      cases hfailure : source.failure with
      | some reason => exact absurd (.reading hfailure) (h _)
      | none =>
        rw [ofFile, Source.visit_feed, hfailure]
        exact hdelivered source

/-- **A file error tells that the file could not be read**, and nothing else does. -/
theorem Program.hasFileError_ofFile_iff (o : Options) (path : Text)
    (opened : Except SourceError Source) :
    (ofFile o path opened : Program α).hasFileError = true ↔
      ∃ reason, Source.Fails opened reason := by
  obtain ⟨hfails, hreads⟩ := ofFile_eq (α := α) o path opened
  constructor
  · intro herror
    by_contra hnone
    rw [hreads fun reason h => hnone ⟨reason, h⟩] at herror
    obtain ⟨d, hd, hfile⟩ := List.any_eq_true.mp herror
    rw [(severity_of_mem_warningsOf hd).2] at hfile
    cases hfile
  · rintro ⟨reason, h⟩
    rw [hfails reason h]
    exact List.any_eq_true.mpr ⟨_, List.mem_append_right _ List.mem_cons_self, rfl⟩

/-! ## 3. The statement -/

/-- **A file error leaves no program**, wherever it strikes.

A program has a file error exactly if its file cannot be opened, or not be read to the end; at a
path of a store, exactly if no file stands there that can be read.  Then it has no commands, however
many lines were delivered.  Its diagnostics are those of the lines that were delivered, which are
warnings, and one error behind them, without a line but with the path as it was given; and its
simulation has an empty tool path.  Otherwise the program is that of all lines, and no diagnostic is
an error. -/
theorem file_error_leaves_no_program (o : Options) (path : Text)
    (opened : Except SourceError Source) :
    let p : Program α := .ofFile o path opened
    let s : Simulation α := .ofFile o path opened
    let warnings := (Program.ofDelivered o opened : Program α).diagnostics
    (p.hasFileError ↔ ∃ reason, Source.Fails opened reason) ∧
      (∀ store : Storage, opened = Source.ofNode path (store.look path) →
        (p.hasFileError ↔ ∀ bytes, store.look path ≠ some (.file bytes))) ∧
      (s.diagnostics = p.diagnostics ∧ s.hasFileError = p.hasFileError) ∧
      (∀ d ∈ warnings, d.severity = .warning) ∧
      (∀ reason, Source.Fails opened reason →
        p.commands = [] ∧ s.commandCount = 0 ∧ s.toolpath.isEmpty ∧
          Diagnostic.warningCount p.diagnostics = warnings.length ∧
          ∃ d, p.diagnostics = warnings ++ [d] ∧ d = .badFile path reason ∧
            d.severity = .error ∧ d.line = 0 ∧ d.text = []) ∧
      ((∀ reason, ¬ Source.Fails opened reason) →
        p = .ofDelivered o opened ∧ ∀ d ∈ p.diagnostics, d.severity ≠ .error) := by
  intro p s warnings
  obtain ⟨hfails, hreads⟩ := Program.ofFile_eq (α := α) o path opened
  have herror := Program.hasFileError_ofFile_iff (α := α) o path opened
  have hwarning : ∀ d ∈ warnings, d.severity = .warning := by
    intro d hd
    exact (severity_of_mem_warningsOf hd).1
  refine ⟨herror, ?store, ⟨rfl, rfl⟩, hwarning, ?fails, ?reads⟩
  case store =>
    intro store hstore
    rw [← Source.exists_fails_ofNode_iff path (store.look path), ← hstore]
    exact herror
  case fails =>
    intro reason h
    have hp : p = ⟨[], warnings ++ [.badFile path reason]⟩ := hfails reason h
    have hs : s = .ofProgram (some .origin) p := rfl
    have hcount : Diagnostic.warningCount (warnings ++ [.badFile path reason]) =
        warnings.length := by
      rw [Diagnostic.warningCount, List.filter_append,
        List.filter_eq_self.mpr fun d hd => decide_eq_true (hwarning d hd)]
      exact congrArg List.length (List.append_nil warnings)
    rw [hs, hp]
    exact ⟨rfl, rfl, rfl, hcount, _, rfl, rfl, rfl, rfl, rfl⟩
  case reads =>
    intro h
    have hp : p = .ofDelivered o opened := hreads h
    refine ⟨hp, ?_⟩
    intro d hd
    rw [hp] at hd
    rw [hwarning d hd]
    exact Severity.noConfusion

/-- Two lines are delivered, a word of the second is bad, and then reading fails. -/
theorem file_error_leaves_no_program_third_line :
    let lines := ["G1 X1\n".toList, "G1 Xa\r\n".toList]
    let source : Source := ⟨40, lines.map Text.encode, some "gone"⟩
    let p : Program Float := .ofFile {} "part.nc".toList (.ok source)
    p.commands = [] ∧ p.hasFileError ∧
      p.diagnostics =
        [.badWord 2 "G1 Xa".toList "Xa".toList "invalid float literal",
          .badFile "part.nc".toList "Failed to read line 3: gone"] := by
  intro lines source p
  obtain ⟨herror, -, -, -, hfails, -⟩ :=
    file_error_leaves_no_program (α := Float) {} "part.nc".toList (.ok source)
  have hreading := @Source.Fails.reading source "gone" rfl
  have hwarnings : (Program.ofDelivered {} (.ok source) : Program Float).diagnostics =
      [.badWord 2 "G1 Xa".toList "Xa".toList "invalid float literal"] := by decide +kernel
  obtain ⟨hcommands, -, -, -, d, hdiagnostics, rfl, -⟩ := hfails _ hreading
  rw [hwarnings] at hdiagnostics
  exact ⟨hcommands, herror.mpr ⟨_, hreading⟩, hdiagnostics.trans (by decide +kernel)⟩

end Motion
