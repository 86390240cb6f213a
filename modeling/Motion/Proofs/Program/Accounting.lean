/-
# Every line is accounted for

Four sequences come out of one text: its raw lines, what is left of them, the commands and the
diagnostics.  Loading skips lines and collects the last two side by side, so this module says how
the four belong together (`ofText_accounts_for_lines`).

* The commands are the lines on which code is left, one each and in order, with their numbers and
  what is left of them (`Text.codeAt`).  So no line is lost, merged with another or read twice.
* The diagnostics are about words of the commands, read from the first to the last.  All words of
  all commands, in this order, are a list of places; the places of the diagnostics are what is left
  of that list if some of its entries are dropped.  So they are ordered by line, and on a line from
  left to right, and no word is reported twice.

Line numbers are words of 32 bits, so all of this is about texts of fewer than 2^32 lines.
-/
import Mathlib.Data.List.Flatten
import Mathlib.Data.List.Nodup
import Motion.Proofs.Program.Loading

namespace Motion

/-! ## 1. Lines and their numbers -/

/-- What is left of the lines of a text, where something is left, with the number of the line. -/
def Text.codeAt (comment : Char) (t : Text) : List (Nat × Text) :=
  (t.lines.zipIdx 1).filterMap fun e => (codePart? comment e.1).map (e.2, ·)

/-- **The numbers do not start over**, so they are those of the places in the list. -/
theorem map_toNat_codeLines (comment : Char) {n : Nat} {raws : List Text}
    (hcount : n + raws.length ≤ 2 ^ 32) :
    (codeLines comment (UInt32.ofNat n) raws).map (fun e => (e.1.toNat, e.2)) =
      (raws.zipIdx n).filterMap fun e => (codePart? comment e.1).map (e.2, ·) := by
  induction raws generalizing n with
  | nil => rfl
  | cons raw rest ih =>
    rw [List.length_cons] at hcount
    have hlt : n < UInt32.size := by
      rw [show UInt32.size = 2 ^ 32 from rfl]
      omega
    have hline : (UInt32.ofNat n).toNat = n := UInt32.toNat_ofNat_of_lt' hlt
    have hnext : UInt32.ofNat n + 1 = UInt32.ofNat (n + 1) := (UInt32.ofNat_add n 1).symm
    have hplaces : n + 1 + rest.length ≤ 2 ^ 32 := by omega
    rw [codeLines_cons, hnext, List.map_append, ih hplaces, List.zipIdx_cons, List.filterMap_cons]
    cases codePart? comment raw with
    | none => rfl
    | some text => simp [hline]

theorem pairwise_zipIdx {β : Type} (l : List β) (n : Nat) :
    (l.zipIdx n).Pairwise fun e e' => e.2 < e'.2 := by
  have hnumbers : ((l.zipIdx n).map Prod.snd).Pairwise (· < ·) := by
    rw [List.zipIdx_map_snd]
    exact List.pairwise_lt_range'
  exact List.pairwise_map.mp hnumbers

/-- What is left of the lines of a text is in the order of the lines. -/
theorem Text.pairwise_codeAt (comment : Char) (t : Text) :
    (t.codeAt comment).Pairwise fun e e' => e.1 < e'.1 := by
  refine (pairwise_zipIdx t.lines 1).filterMap _ ?_
  intro e e' hlt x hx x' hx'
  obtain ⟨text, -, rfl⟩ := Option.map_eq_some_iff.mp hx
  obtain ⟨text', -, rfl⟩ := Option.map_eq_some_iff.mp hx'
  exact hlt

/-! ## 2. Commands and words -/

/-- The line of a diagnostic, the text of the line and the word. -/
def Diagnostic.place (d : Diagnostic) : UInt32 × Text × Option Text := (d.line, d.text, d.word?)

variable {α : Type}

/-- The words of a command, each with the line and the text that it is on. -/
def Command.places (c : Command α) : List (UInt32 × Text × Option Text) :=
  c.source.words.map fun w => (c.line, c.source, some w)

/-- Commands with the same line are the same. -/
theorem eq_of_line_eq {cs : List (Command α)} (h : cs.Pairwise fun c c' => c.line < c'.line)
    {c c' : Command α} (hc : c ∈ cs) (hc' : c' ∈ cs) (hline : c.line = c'.line) : c = c' := by
  have hnodup : (cs.map Command.line).Nodup :=
    List.pairwise_map.mpr (h.imp fun hlt => UInt32.ne_of_lt hlt)
  exact List.inj_on_of_nodup_map hnodup hc hc' hline

variable [Scalar α]

/-- **Every line becomes one command**, and every command comes from one. -/
theorem map_readLines (mode : CoordinateMode) (carried : Point α) (lines : List (UInt32 × Text)) :
    (readLines mode carried lines).map (fun c => (c.line, c.source)) = lines := by
  induction lines generalizing carried with
  | nil => rfl
  | cons e rest ih =>
    rw [readLines, List.map_cons, ih, line_readLine, source_readLine]

theorem place_of_wordWarning? {line : UInt32} {text word : Text} {d : Diagnostic}
    (h : wordWarning? α line text word = some d) : d.place = (line, text, some word) := by
  unfold wordWarning? at h
  split at h
  · obtain rfl := Option.some.inj h
    rfl
  · cases h

/-- **The warnings of a line** are about some of its words, from left to right. -/
theorem map_place_lineWarnings_sublist (line : UInt32) (text : Text) :
    List.Sublist ((lineWarnings α line text).map Diagnostic.place)
      (text.words.map fun w => (line, text, some w)) := by
  unfold lineWarnings
  induction text.words with
  | nil => exact List.Sublist.refl _
  | cons w ws ih =>
    rw [List.filterMap_cons, List.map_cons]
    split
    · exact ih.cons _
    · rename_i d hd
      rw [List.map_cons, place_of_wordWarning? hd]
      exact ih.cons_cons _

/-- **The warnings of a program** are about some of the words of its commands, in their order. -/
theorem map_place_diagnostics_sublist (mode : CoordinateMode) (carried : Point α)
    (lines : List (UInt32 × Text)) :
    let p : Program α := .ofLines mode carried lines
    List.Sublist (p.diagnostics.map Diagnostic.place) (p.commands.flatMap Command.places) := by
  have hplaces : (readLines mode carried lines).flatMap Command.places =
      lines.flatMap fun e => e.2.words.map fun w => (e.1, e.2, some w) := by
    conv_rhs => rw [← map_readLines mode carried lines, List.flatMap_map]
    rfl
  intro p
  rw [show p.commands = readLines mode carried lines from rfl, hplaces,
    show p.diagnostics = warningsOf α lines from rfl, warningsOf, List.map_flatMap]
  exact List.Sublist.flatMap_right lines fun e _ => map_place_lineWarnings_sublist e.1 e.2

/-! ## 3. Texts -/

variable {o : Options} {t : Text}

/-- The commands of a text are the lines on which code is left. -/
theorem map_commands_ofText (hcount : t.lines.length < 2 ^ 32) :
    (Program.ofText o t : Program α).commands.map (fun c => (c.line.toNat, c.source)) =
      t.codeAt o.comment := by
  have hplaces : 1 + t.lines.length ≤ 2 ^ 32 := by omega
  have hlines := map_toNat_codeLines o.comment hplaces
  have hcommands := map_readLines o.mode (.origin : Point α) (codeLines o.comment 1 t.lines)
  rw [Text.codeAt, ← hlines, Program.ofText_eq, Program.ofLines]
  conv_rhs => rw [show UInt32.ofNat 1 = 1 from rfl, ← hcommands, List.map_map]
  rfl

/-- The line numbers of the commands grow. -/
theorem pairwise_line_ofText (hcount : t.lines.length < 2 ^ 32) :
    (Program.ofText o t : Program α).commands.Pairwise fun c c' => c.line < c'.line := by
  have hnumbers := t.pairwise_codeAt o.comment
  rw [← map_commands_ofText (α := α) hcount, List.pairwise_map] at hnumbers
  exact hnumbers.imp UInt32.lt_iff_toNat_lt.mpr

/-- **Where a diagnostic points to**: to one command, its text, and a word of it. -/
theorem exists_command_of_diagnostic (hcount : t.lines.length < 2 ^ 32) {d : Diagnostic}
    (hd : d ∈ (Program.ofText o t : Program α).diagnostics) :
    ∃ c ∈ (Program.ofText o t : Program α).commands,
      c.line = d.line ∧ c.source = d.text ∧ (∃ w ∈ c.source.words, d.word? = some w) ∧
        ∀ c' ∈ (Program.ofText o t : Program α).commands, c'.line = d.line → c' = c := by
  have hplace : d.place ∈ (Program.ofText o t : Program α).commands.flatMap Command.places := by
    rw [Program.ofText_eq] at hd ⊢
    exact (map_place_diagnostics_sublist o.mode _ _).subset (List.mem_map_of_mem hd)
  obtain ⟨c, hc, hmem⟩ := List.mem_flatMap.mp hplace
  obtain ⟨w, hw, heq⟩ := List.mem_map.mp hmem
  obtain ⟨hline, htext, hword⟩ : c.line = d.line ∧ c.source = d.text ∧ some w = d.word? := by
    simpa [Diagnostic.place] using heq
  refine ⟨c, hc, hline, htext, ⟨w, hw, hword.symm⟩, fun c' hc' hline' => ?_⟩
  exact eq_of_line_eq (pairwise_line_ofText hcount) hc' hc (hline'.trans hline.symm)

/-- **Loading accounts for every line.**

Take a text of fewer than 2^32 lines.  Its commands are the lines on which code is left, one each
and in order, each with the number of the line and with what is left of it; so their line numbers
grow.  No file is complained about.  Every diagnostic is a warning; it has the line and the text of
one command, and of no other, and a word of that text.  And read from the first to the last, the
diagnostics are about some of the words of the commands, in the order of the commands and, on each,
from left to right. -/
theorem ofText_accounts_for_lines (o : Options) (t : Text) (hcount : t.lines.length < 2 ^ 32) :
    let p : Program α := .ofText o t
    p.commands.map (fun c => (c.line.toNat, c.source)) = t.codeAt o.comment ∧
      p.commands.Pairwise (fun c c' => c.line < c'.line) ∧
      p.hasFileError = false ∧
      (∀ d ∈ p.diagnostics,
        d.severity = .warning ∧
          ∃ c ∈ p.commands,
            c.line = d.line ∧ c.source = d.text ∧ (∃ w ∈ c.source.words, d.word? = some w) ∧
              ∀ c' ∈ p.commands, c'.line = d.line → c' = c) ∧
      List.Sublist (p.diagnostics.map Diagnostic.place) (p.commands.flatMap Command.places) := by
  intro p
  have hwarning : ∀ d ∈ p.diagnostics, ∃ line text word reason,
      d = .badWord line text word reason := by
    intro d hd
    have hmem : d ∈ (Program.ofText o t : Program α).diagnostics := hd
    rw [Program.ofText_eq] at hmem
    obtain ⟨e, -, word, reason, rfl⟩ := exists_of_mem_warningsOf hmem
    exact ⟨e.1, e.2, word, reason, rfl⟩
  refine ⟨map_commands_ofText hcount, pairwise_line_ofText hcount, ?_, fun d hd => ⟨?_, ?_⟩, ?_⟩
  · refine List.any_eq_false.mpr fun d hd => ?_
    obtain ⟨line, text, word, reason, rfl⟩ := hwarning d hd
    exact Bool.false_ne_true
  · obtain ⟨line, text, word, reason, rfl⟩ := hwarning d hd
    rfl
  · exact exists_command_of_diagnostic hcount hd
  · have hsublist := map_place_diagnostics_sublist o.mode (.origin : Point α)
      (codeLines o.comment 1 t.lines)
    rwa [← Program.ofText_eq] at hsublist

/-- Three lines, one of them a comment, and two words that cannot be read on the last. -/
theorem ofText_accounts_for_lines_bad_words :
    let t : Text := "G0 X1\n; note\r\n  G1 Xa Y2 Zb ; note".toList
    let p : Program Float := .ofText {} t
    t.lines.length < 2 ^ 32 ∧
      p.commands.map (fun c => (c.line.toNat, c.source)) =
        [(1, "G0 X1".toList), (3, "G1 Xa Y2 Zb".toList)] ∧
      p.diagnostics.map Diagnostic.word? = [some "Xa".toList, some "Zb".toList] ∧
      List.Sublist (p.diagnostics.map Diagnostic.place) (p.commands.flatMap Command.places) := by
  intro t p
  have hcount : t.lines.length < 2 ^ 32 := by decide
  obtain ⟨hcommands, -, -, -, hdiagnostics⟩ := ofText_accounts_for_lines (α := Float) {} t hcount
  have hcode : t.codeAt ';' = [(1, "G0 X1".toList), (3, "G1 Xa Y2 Zb".toList)] := by decide
  exact ⟨hcount, hcommands.trans hcode, rfl, hdiagnostics⟩

end Motion
