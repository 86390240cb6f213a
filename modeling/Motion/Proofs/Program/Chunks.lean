/-
# Programs in two parts

A text may be cut behind any line feed and its parts loaded one after the other.  What has to be
handed over is little, and this module says what: the target of the last command, which modal
coordinates go on from; the number of lines so far, by which the line numbers of the second part
are shifted; and, for the trace, the position of the tool, known or not.  Nothing else of the first
part is seen by the second (`ofText_append`).

The two targets are not the same thing.  The loader hands over the target of the last command, even
if that command does not move the tool; the trace hands over where the tool is.

Line numbers are words of 32 bits, so a shift is an addition that may start over.  It does not as
long as the whole text has less than 2^32 lines (`toNat_line_shift`).
-/
import Motion.Number.Double
import Motion.Proofs.Program.Loading
import Motion.Proofs.Text.Lines
import Motion.Proofs.Toolpath.History

namespace Motion

/-! ## 1. Shifted line numbers -/

variable {α : Type}

/-- The command, so many lines further down. -/
def Command.shift (k : Nat) (c : Command α) : Command α :=
  { c with line := c.line + UInt32.ofNat k }

/-- The diagnostic, so many lines further down.  That of a file is about no line. -/
def Diagnostic.shift (k : Nat) : Diagnostic → Diagnostic
  | badWord line text word reason => badWord (line + UInt32.ofNat k) text word reason
  | badFile path reason => badFile path reason

/-- The program, so many lines further down. -/
def Program.shift (k : Nat) (p : Program α) : Program α :=
  ⟨p.commands.map (·.shift k), p.diagnostics.map (·.shift k)⟩

/-- One program behind another. -/
instance : Append (Program α) :=
  ⟨fun p q => ⟨p.commands ++ q.commands, p.diagnostics ++ q.diagnostics⟩⟩

theorem Program.append_def (p q : Program α) :
    p ++ q = ⟨p.commands ++ q.commands, p.diagnostics ++ q.diagnostics⟩ := rfl

variable [Scalar α]

/-- The number of a line goes into its command as it is, whatever its words say. -/
theorem readLine_shift (mode : CoordinateMode) (carried : Point α) (line : UInt32) (k : Nat)
    (text : Text) :
    readLine mode carried (line + UInt32.ofNat k) text =
      (readLine mode carried line text).shift k := by
  rw [readLine_eq_placed, readLine_eq_placed mode carried line]
  rfl

theorem lineWarnings_shift (line : UInt32) (k : Nat) (text : Text) :
    lineWarnings α (line + UInt32.ofNat k) text =
      (lineWarnings α line text).map (·.shift k) := by
  rw [lineWarnings, lineWarnings, List.map_filterMap]
  congr 1
  funext word
  unfold wordWarning?
  split <;> rfl

/-- **Numbered lines further down give the program further down.** -/
theorem ofLines_shift (mode : CoordinateMode) (carried : Point α) (k : Nat)
    (lines : List (UInt32 × Text)) :
    (.ofLines mode carried (lines.map fun e => (e.1 + UInt32.ofNat k, e.2)) : Program α) =
      (Program.ofLines mode carried lines).shift k := by
  have hcommands : readLines mode carried (lines.map fun e => (e.1 + UInt32.ofNat k, e.2))
      = (readLines mode carried lines).map (·.shift k) := by
    induction lines generalizing carried with
    | nil => rfl
    | cons e rest ih =>
      simp only [List.map_cons, readLines, readLine_shift]
      -- a shift does not touch the target that is handed on
      exact congrArg _ (ih (readLine mode carried e.1 e.2).target)
  have hwarnings : warningsOf α (lines.map fun e => (e.1 + UInt32.ofNat k, e.2))
      = (warningsOf α lines).map (·.shift k) := by
    simp only [warningsOf, List.flatMap_map, List.map_flatMap, lineWarnings_shift]
  rw [Program.ofLines, hcommands, hwarnings]
  rfl

theorem ofLines_append (mode : CoordinateMode) (carried : Point α)
    (lines lines' : List (UInt32 × Text)) :
    (.ofLines mode carried (lines ++ lines') : Program α) =
      .ofLines mode carried lines ++
        .ofLines mode (lastTarget carried (Program.ofLines mode carried lines).commands)
          lines' := by
  simp only [Program.ofLines, Program.append_def, readLines_append, warningsOf,
    List.flatMap_append]

theorem step_shift (position : Option (Point α)) (k : Nat) (c : Command α) :
    step position (c.shift k) = step position c := rfl

/-- The trace does not look at line numbers. -/
theorem Trace.ofCommands_shift (position : Option (Point α)) (k : Nat) (cs : List (Command α)) :
    ofCommands position (cs.map (·.shift k)) = ofCommands position cs := by
  have hfeed (t : Trace α) (c : Command α) : t.feed (c.shift k) = t.feed c := by
    rw [feed, step_shift, feed]
  simp only [ofCommands, List.foldl_map, hfeed]

/-! ## 2. The second part -/

/-- The program of a text that is read after a line with the given target. -/
def Program.ofTextAfter (o : Options) (carried : Point α) (t : Text) : Program α :=
  (Loader.feedAll o ⟨carried, #[], #[]⟩ 1 t.lines).program

theorem Program.ofTextAfter_eq (o : Options) (carried : Point α) (t : Text) :
    (ofTextAfter o carried t : Program α) =
      .ofLines o.mode carried (codeLines o.comment 1 t.lines) :=
  Loader.program_feedAll o carried 1 t.lines

/-- Where coordinates are reset, nothing of a line before the text is seen. -/
theorem Program.ofTextAfter_reset {o : Options} (h : o.mode = .reset) (carried : Point α)
    (t : Text) : (ofTextAfter o carried t : Program α) = ofText o t := by
  rw [ofTextAfter_eq, ofText_eq, ofLines, ofLines, h, readLines_reset carried .origin]

/-- The numbers of a text's lines are as many as its lines. -/
theorem toNat_line_le {comment : Char} {t : Text} {e : UInt32 × Text}
    (hcount : t.lines.length < 2 ^ 32) (he : e ∈ codeLines comment 1 t.lines) :
    e.1.toNat ≤ t.lines.length :=
  (toNat_of_mem_codeLines hcount he).2

/-- **Shifted numbers do not start over** while the whole text is short enough. -/
theorem toNat_line_shift {line : UInt32} {k n : Nat} (hline : line.toNat ≤ n)
    (hcount : k + n < 2 ^ 32) : (line + UInt32.ofNat k).toNat = line.toNat + k := by
  rw [UInt32.toNat_add, UInt32.toNat_ofNat']
  omega

/-! ## 3. Both parts -/

/-- **Loading both parts.**  The second is read after the last target of the first and stands as
many lines further down as the first one has. -/
theorem Program.ofText_append_eq (o : Options) {a : Text} (ha : a = [] ∨ a.getLast? = some '\n')
    (b : Text) :
    (ofText o (a ++ b) : Program α) =
      ofText o a ++
        (ofTextAfter o (lastTarget .origin (ofText o a : Program α).commands) b).shift
          a.lines.length := by
  rw [ofTextAfter_eq, ofText_eq, ofText_eq, Text.lines_append ha, codeLines_append,
    codeLines_shift, ofLines_append, ofLines_shift]

/-- The numbers of the second part, counted on. -/
theorem Program.toNat_line_ofTextAfter (o : Options) (carried : Point α) {t : Text} {k : Nat}
    (hcount : k + t.lines.length < 2 ^ 32) :
    (∀ c ∈ (ofTextAfter o carried t : Program α).commands,
        (c.shift k).line.toNat = c.line.toNat + k) ∧
      ∀ d ∈ (ofTextAfter o carried t : Program α).diagnostics,
        (d.shift k).line.toNat = d.line.toNat + k := by
  have hlines : t.lines.length < 2 ^ 32 := by omega
  rw [ofTextAfter_eq]
  constructor
  · intro c hc
    obtain ⟨e, he, hline⟩ := line_of_mem_readLines hc
    rw [hline, ← toNat_line_shift (toNat_line_le hlines he) hcount, Command.shift, hline]
  · intro d hd
    obtain ⟨e, he, word, reason, rfl⟩ := exists_of_mem_warningsOf hd
    exact toNat_line_shift (toNat_line_le hlines he) hcount

/-- **A program in two parts.**  Where the first part of a text is empty or ends with a line feed,
the text loads as its parts do one behind the other: the second is read after the target of the
last command of the first, and its line numbers are counted on.  Where coordinates are reset it is
the program of the second text alone.  And from any position, known or not, the whole is traced as
its parts are, the second from where the first leaves the tool. -/
theorem ofText_append (o : Options) {a : Text} (ha : a = [] ∨ a.getLast? = some '\n') (b : Text) :
    let first : Program α := .ofText o a
    let second : Program α := .ofTextAfter o (lastTarget .origin first.commands) b
    let k := a.lines.length
    .ofText o (a ++ b) = first ++ second.shift k ∧
      (o.mode = .reset → second = .ofText o b) ∧
      ((a ++ b).lines.length < 2 ^ 32 →
        (∀ c ∈ second.commands, (c.shift k).line.toNat = c.line.toNat + k) ∧
          ∀ d ∈ second.diagnostics, (d.shift k).line.toNat = d.line.toNat + k) ∧
      ∀ position,
        let t := Trace.ofCommands position first.commands
        let u := Trace.ofCommands t.position (second.shift k).commands
        Trace.ofCommands position (.ofText o (a ++ b) : Program α).commands =
            ⟨u.position, t.segments ++ u.segments⟩ ∧
          u = Trace.ofCommands t.position second.commands := by
  intro first second k
  have hprogram : .ofText o (a ++ b) = first ++ second.shift k := Program.ofText_append_eq o ha b
  refine ⟨hprogram, fun hmode => Program.ofTextAfter_reset hmode _ b, fun hcount => ?_,
    fun position => ⟨?_, ?_⟩⟩
  · rw [Text.lines_append ha, List.length_append] at hcount
    exact Program.toNat_line_ofTextAfter o _ hcount
  · rw [hprogram]
    exact Trace.ofCommands_append position first.commands (second.shift k).commands
  · exact Trace.ofCommands_shift _ k second.commands

/-- Two lines, cut between them. -/
theorem ofText_append_two_lines :
    let a : Text := "G0 X1\n".toList
    let b : Text := "G1 Y2".toList
    let reset : Options := ⟨.reset, ';'⟩
    let modal : Options := ⟨.modal, ';'⟩
    let target : Point Float := lastTarget .origin (Program.ofText modal a).commands
    a.getLast? = some '\n' ∧ (a ++ b).lines.length < 2 ^ 32 ∧
      (.ofText reset (a ++ b) : Program Float) =
        .ofText reset a ++ (Program.ofText reset b).shift 1 ∧
      (∀ c ∈ (Program.ofText reset b : Program Float).commands,
        (c.shift 1).line.toNat = c.line.toNat + 1) ∧
      (.ofText modal (a ++ b) : Program Float) =
        .ofText modal a ++ (Program.ofTextAfter modal target b).shift 1 := by
  intro a b reset modal target
  have hfeed : a.getLast? = some '\n' := by decide
  have hcount : (a ++ b).lines.length < 2 ^ 32 := by decide
  obtain ⟨hprogram, hreset, hlines, -⟩ := ofText_append (α := Float) reset (Or.inr hfeed) b
  rw [hreset rfl] at hprogram hlines
  exact ⟨hfeed, hcount, hprogram, (hlines hcount).1,
    (ofText_append (α := Float) modal (Or.inr hfeed) b).1⟩

end Motion
