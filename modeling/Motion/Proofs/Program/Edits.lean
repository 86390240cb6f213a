/-
# Edits without a trace

Comments, indentation and lines without code are there for people.  This module says which edits
of a text its program does not notice.

| edit                                                   | what changes                          |
|--------------------------------------------------------|---------------------------------------|
| blanks at the start of a line (`Pads.indent`)          | nothing                               |
| a comment at the end of a line (`Pads.remark`)         | nothing                               |
| a line of which no code is left (`InsertsLine`)        | the numbers of the lines behind it    |

Both kinds of edit come down to what is left of the lines.  A line may be replaced by one with the
same code (`codeLines_replace`), and a line without code is counted and read as nothing
(`Program.ofTextAfter_cons`).  Neither depends on how coordinates are carried: whatever one line
hands to the next, a line without code hands it on.

Where a comment starts with a blank, blanks at the start of a line may be a comment, so they are
padding only for the other comment characters.  A line ends before its line feed, and before the
carriage return in front of it if there is one; the last line may end with the text.
-/
import Mathlib.Logic.Relation
import Motion.Proofs.Program.Chunks
import Motion.Proofs.Program.Files
import Motion.Proofs.Program.SoundWords

namespace Motion

/-! ## 1. Places in a text -/

namespace Text

/-- A line starts behind the text. -/
def StartsLine (before : Text) : Prop := before = [] ∨ before.getLast? = some '\n'

/-- What a line can end with. -/
def lineEndings : List Text := [['\n'], ['\r', '\n']]

/-- A line ends in front of the text. -/
def EndsLine (after : Text) : Prop := after = [] ∨ ∃ ending ∈ lineEndings, ending <+: after

/-- A line ending is a line feed behind a carriage return or behind nothing. -/
theorem exists_of_mem_lineEndings {ending : Text} (h : ending ∈ lineEndings) :
    ∃ ret, ending = ret ++ ['\n'] ∧ ∀ c ∈ ret, c = '\r' := by
  simp only [lineEndings, List.mem_cons, List.not_mem_nil, or_false] at h
  rcases h with rfl | rfl
  · exact ⟨[], by simp⟩
  · exact ⟨['\r'], by simp⟩

theorem isBlank_of_return {ret : Text} (h : ∀ c ∈ ret, c = '\r') :
    ∀ c ∈ ret, isBlank c = true := by
  intro c hc
  rw [h c hc]
  rfl

theorem feed_notMem_of_return {ret : Text} (h : ∀ c ∈ ret, c = '\r') : '\n' ∉ ret :=
  fun hmem => by cases h _ hmem

/-- Every text is whole lines and the beginning of one. -/
theorem exists_startsLine_append (t : Text) :
    ∃ before l, t = before ++ l ∧ StartsLine before ∧ '\n' ∉ l := by
  induction t using feed_induction '\n' with
  | last l hl => exact ⟨[], l, rfl, Or.inl rfl, hl⟩
  | line l rest hl ih =>
    obtain ⟨before, l', rfl, hbefore, hl'⟩ := ih
    refine ⟨l ++ '\n' :: before, l', by simp, Or.inr ?_, hl'⟩
    rcases hbefore with rfl | hbefore
    · simp
    · simp [List.getLast?_append, List.getLast?_cons, hbefore]

/-- Every text is the end of a line and what follows it. -/
theorem exists_append_feed (t : Text) :
    ∃ l after, t = l ++ after ∧ '\n' ∉ l ∧ (after = [] ∨ ∃ rest, after = '\n' :: rest) := by
  induction t using feed_induction '\n' with
  | last l hl => exact ⟨l, [], by simp, hl, Or.inl rfl⟩
  | line l rest hl _ => exact ⟨l, '\n' :: rest, rfl, hl, Or.inr ⟨rest, rfl⟩⟩

/-- In front of the line feed that ends a line there is a carriage return or nothing. -/
theorem EndsLine.exists_append {after : Text} (h : EndsLine after) :
    ∃ ret rest, after = ret ++ rest ∧ (∀ c ∈ ret, c = '\r') ∧
      (rest = [] ∨ ∃ rest', rest = '\n' :: rest') := by
  rcases h with rfl | ⟨ending, hending, rest, rfl⟩
  · exact ⟨[], [], by simp⟩
  · obtain ⟨ret, rfl, hret⟩ := exists_of_mem_lineEndings hending
    exact ⟨ret, '\n' :: rest, by simp, hret, Or.inr ⟨rest, rfl⟩⟩

end Text

/-! ## 2. What is left of a line -/

/-- Blanks at the start of a raw line leave no code, if none of them starts a comment. -/
theorem codePart?_blanks_append {bs : Text} (h : ∀ c ∈ bs, Text.isBlank c = true) {comment : Char}
    (hcomment : Text.isBlank comment = false) (l : Text) :
    codePart? comment (bs ++ l) = codePart? comment l := by
  have hne : ∀ c ∈ bs, (c != comment) = true := by
    intro c hc
    rw [bne_iff_ne]
    rintro rfl
    rw [h c hc] at hcomment
    cases hcomment
  have htrim (t : Text) : Text.trim (bs ++ t) = Text.trim t := by
    rw [Text.trim, Text.trimStart, List.dropWhile_append_of_pos h, Text.trim, Text.trimStart]
  rw [codePart?, List.takeWhile_append_of_pos hne, htrim, codePart?]

/-! ## 3. What is left of the lines of a text -/

theorem codeLines_lines_of_notMem {l : Text} (h : '\n' ∉ l) (comment : Char) (n : UInt32) :
    codeLines comment n l.lines = ((codePart? comment l).map (n, ·)).toList := by
  rw [Text.lines_of_notMem h]
  cases l with
  | nil => rfl
  | cons c l =>
    rw [List.isEmpty_cons, if_neg Bool.false_ne_true, codeLines_cons]
    simp [codeLines, numbered]

theorem codeLines_lines_cons_feed {l : Text} (h : '\n' ∉ l) (comment : Char) (n : UInt32)
    (rest : Text) :
    codeLines comment n (l ++ '\n' :: rest).lines =
      ((codePart? comment l).map (n, ·)).toList ++ codeLines comment (n + 1) rest.lines := by
  rw [Text.lines_cons_feed h, codeLines_cons, codePart?_dropFinal]

/-- **A line may be replaced by one with the same code.** -/
theorem codeLines_replace {comment : Char} {before l l' after : Text}
    (hbefore : Text.StartsLine before) (hl : '\n' ∉ l) (hl' : '\n' ∉ l')
    (hafter : after = [] ∨ ∃ rest, after = '\n' :: rest)
    (h : codePart? comment l' = codePart? comment l) (n : UInt32) :
    codeLines comment n (before ++ (l' ++ after)).lines =
      codeLines comment n (before ++ (l ++ after)).lines := by
  rw [Text.lines_append hbefore, Text.lines_append hbefore, codeLines_append, codeLines_append]
  congr 1
  rcases hafter with rfl | ⟨rest, rfl⟩
  · rw [List.append_nil, List.append_nil, codeLines_lines_of_notMem hl',
      codeLines_lines_of_notMem hl, h]
  · rw [codeLines_lines_cons_feed hl', codeLines_lines_cons_feed hl, h]

/-! ## 4. The edits -/

/-- One edit of a text that leaves every line with its code, in its place. -/
inductive Pads (comment : Char) : Text → Text → Prop
  /-- Blanks at the start of a line, where no comment starts with a blank. -/
  | indent (before bs after : Text) (hbefore : Text.StartsLine before)
      (hcomment : Text.isBlank comment = false) (hbs : ∀ c ∈ bs, Text.isBlank c = true ∧ c ≠ '\n') :
      Pads comment (before ++ after) (before ++ bs ++ after)
  /-- A comment at the end of a line. -/
  | remark (before t after : Text) (ht : '\n' ∉ t) (hafter : Text.EndsLine after) :
      Pads comment (before ++ after) (before ++ comment :: t ++ after)

/-- One line more, of which no code is left, behind so many others. -/
inductive InsertsLine (comment : Char) : Nat → Text → Text → Prop
  /-- The line with its ending, where a line starts. -/
  | between (before l ending after : Text) (hbefore : Text.StartsLine before) (hl : '\n' ∉ l)
      (hending : ending ∈ Text.lineEndings) (hcode : codePart? comment l = none) :
      InsertsLine comment before.lines.length (before ++ after) (before ++ l ++ ending ++ after)
  /-- The line behind a last line that had no ending. -/
  | behind (before l ending : Text) (hbefore : ¬ Text.StartsLine before) (hl : '\n' ∉ l)
      (hending : ending ∈ Text.lineEndings) (hcode : codePart? comment l = none) :
      InsertsLine comment before.lines.length before (before ++ ending ++ l)
  /-- The line without an ending, behind a last line that had one. -/
  | last (before l : Text) (hbefore : Text.StartsLine before) (hl : '\n' ∉ l)
      (hcode : codePart? comment l = none) :
      InsertsLine comment before.lines.length before (before ++ l)

/-- **Padding leaves all lines with their code.** -/
theorem Pads.codeLines_eq {comment : Char} (hcomment : comment ≠ '\n') {t t' : Text}
    (h : Pads comment t t') : codeLines comment 1 t'.lines = codeLines comment 1 t.lines := by
  cases h with
  | indent before bs after hbefore hblank hbs =>
    obtain ⟨l, rest, rfl, hl, hrest⟩ := Text.exists_append_feed after
    have hcode : codePart? comment (bs ++ l) = codePart? comment l :=
      codePart?_blanks_append (fun c hc => (hbs c hc).1) hblank l
    have hl' : '\n' ∉ bs ++ l := by
      rw [List.mem_append]
      rintro (hmem | hmem)
      · exact (hbs _ hmem).2 rfl
      · exact hl hmem
    rw [List.append_assoc, ← List.append_assoc bs]
    exact codeLines_replace hbefore hl hl' hrest hcode 1
  | remark before t after ht hafter =>
    obtain ⟨start, l, rfl, hstart, hl⟩ := Text.exists_startsLine_append before
    obtain ⟨ret, rest, rfl, hret, hrest⟩ := hafter.exists_append
    have hcode : codePart? comment (l ++ comment :: (t ++ ret)) = codePart? comment (l ++ ret) := by
      rw [codePart?_comment, codePart?_append_blanks (Text.isBlank_of_return hret)]
    have hfeed : '\n' ∉ ret := Text.feed_notMem_of_return hret
    have hold : '\n' ∉ l ++ ret := by simp [hl, hfeed]
    have hnew : '\n' ∉ l ++ comment :: (t ++ ret) := by simp [hl, hfeed, ht, hcomment.symm]
    have htext : start ++ l ++ comment :: t ++ (ret ++ rest) =
        start ++ (l ++ comment :: (t ++ ret) ++ rest) := by simp
    rw [htext, List.append_assoc start, ← List.append_assoc l]
    exact codeLines_replace hstart hold hnew hrest hcode 1

/-! ## 5. A line more -/

section Room

variable {α : Type}

/-- The command, one line further down if it stands behind line `k`. -/
def Command.makeRoom (k : Nat) (c : Command α) : Command α :=
  if k < c.line.toNat then c.shift 1 else c

/-- The diagnostic, one line further down if it is about a line behind line `k`. -/
def Diagnostic.makeRoom (k : Nat) (d : Diagnostic) : Diagnostic :=
  if k < d.line.toNat then d.shift 1 else d

/-- The program with room for one more line behind line `k`. -/
def Program.makeRoom (k : Nat) (p : Program α) : Program α :=
  ⟨p.commands.map (·.makeRoom k), p.diagnostics.map (·.makeRoom k)⟩

theorem Program.makeRoom_append (k : Nat) (p q : Program α) :
    (p ++ q).makeRoom k = p.makeRoom k ++ q.makeRoom k := by
  simp [makeRoom, append_def]

/-- What stands in front of the new line stays where it is. -/
theorem Program.makeRoom_of_le {k : Nat} {p : Program α}
    (hcommands : ∀ c ∈ p.commands, c.line.toNat ≤ k)
    (hdiagnostics : ∀ d ∈ p.diagnostics, d.line.toNat ≤ k) : p.makeRoom k = p := by
  have hc : ∀ c ∈ p.commands, c.makeRoom k = c := fun c hc =>
    if_neg (Nat.not_lt.mpr (hcommands c hc))
  have hd : ∀ d ∈ p.diagnostics, d.makeRoom k = d := fun d hd =>
    if_neg (Nat.not_lt.mpr (hdiagnostics d hd))
  rw [makeRoom, List.map_congr_left hc, List.map_congr_left hd, List.map_id', List.map_id']

/-- What stands behind the new line moves down by one. -/
theorem Program.makeRoom_of_lt {k : Nat} {p : Program α}
    (hcommands : ∀ c ∈ p.commands, k < c.line.toNat)
    (hdiagnostics : ∀ d ∈ p.diagnostics, k < d.line.toNat) : p.makeRoom k = p.shift 1 := by
  have hc : ∀ c ∈ p.commands, c.makeRoom k = c.shift 1 := fun c hc => if_pos (hcommands c hc)
  have hd : ∀ d ∈ p.diagnostics, d.makeRoom k = d.shift 1 := fun d hd => if_pos (hdiagnostics d hd)
  rw [makeRoom, List.map_congr_left hc, List.map_congr_left hd, shift]

theorem Program.shift_shift (j k : Nat) (p : Program α) :
    (p.shift j).shift k = (p.shift k).shift j := by
  have hline (n : UInt32) :
      n + UInt32.ofNat j + UInt32.ofNat k = n + UInt32.ofNat k + UInt32.ofNat j := by
    rw [UInt32.add_assoc, UInt32.add_comm (UInt32.ofNat j), UInt32.add_assoc]
  have hc (c : Command α) : (c.shift j).shift k = (c.shift k).shift j := by
    simp only [Command.shift, hline]
  have hd (d : Diagnostic) : (d.shift j).shift k = (d.shift k).shift j := by
    cases d <;> simp only [Diagnostic.shift, hline]
  simp only [shift, List.map_map, Function.comp_def, hc, hd]

end Room

variable {α : Type} [Scalar α]

/-- The commands and the diagnostics of fewer than 2^32 lines stand on those lines. -/
theorem line_bounds_ofLines (mode : CoordinateMode) (carried : Point α) (comment : Char)
    {raws : List Text} (hcount : raws.length < 2 ^ 32) :
    let p : Program α := .ofLines mode carried (codeLines comment 1 raws)
    (∀ c ∈ p.commands, 0 < c.line.toNat ∧ c.line.toNat ≤ raws.length) ∧
      ∀ d ∈ p.diagnostics, 0 < d.line.toNat ∧ d.line.toNat ≤ raws.length := by
  constructor
  · intro c hc
    obtain ⟨e, he, hline⟩ := line_of_mem_readLines hc
    rw [hline]
    exact toNat_of_mem_codeLines hcount he
  · intro d hd
    obtain ⟨e, he, word, reason, rfl⟩ := exists_of_mem_warningsOf hd
    exact toNat_of_mem_codeLines hcount he

/-! ## 6. A line without code -/

section Line

variable {comment : Char} {l ending : Text} (hl : '\n' ∉ l) (hending : ending ∈ Text.lineEndings)
include hl hending

/-- A line with its ending is one with a line feed, less what blanks its ending adds. -/
theorem exists_feed_line (comment : Char) :
    ∃ m, '\n' ∉ m ∧ l ++ ending = m ++ ['\n'] ∧ codePart? comment m = codePart? comment l := by
  obtain ⟨ret, rfl, hret⟩ := Text.exists_of_mem_lineEndings hending
  refine ⟨l ++ ret, ?_, by simp, codePart?_append_blanks (Text.isBlank_of_return hret) comment l⟩
  rw [List.mem_append]
  rintro (hmem | hmem)
  · exact hl hmem
  · exact Text.feed_notMem_of_return hret hmem

theorem length_lines_cons (t : Text) : (l ++ ending ++ t).lines.length = t.lines.length + 1 := by
  obtain ⟨m, hm, htext, -⟩ := exists_feed_line hl hending ' '
  rw [htext, List.append_assoc, List.singleton_append, Text.lines_cons_feed hm, List.length_cons]

/-- **The first line** of a text, with its ending. -/
theorem codeLines_lines_cons (comment : Char) (n : UInt32) (t : Text) :
    codeLines comment n (l ++ ending ++ t).lines =
      ((codePart? comment l).map (n, ·)).toList ++ codeLines comment (n + 1) t.lines := by
  obtain ⟨m, hm, htext, hcode⟩ := exists_feed_line hl hending comment
  rw [htext, List.append_assoc, List.singleton_append, codeLines_lines_cons_feed hm, hcode]

end Line

/-- The code of the lines does not depend on their numbers. -/
theorem map_snd_codeLines (comment : Char) (n n' : UInt32) (raws : List Text) :
    (codeLines comment n raws).map Prod.snd = (codeLines comment n' raws).map Prod.snd := by
  have hzero (n : UInt32) :
      (codeLines comment n raws).map Prod.snd = (codeLines comment 0 raws).map Prod.snd := by
    have hshift := codeLines_shift comment 0 n raws
    rw [UInt32.zero_add] at hshift
    rw [hshift, List.map_map]
    rfl
  rw [hzero n, hzero n']

namespace InsertsLine

variable {comment : Char} {k : Nat} {t t' : Text}

/-- Behind the last line of a text, a line without code is not seen at all. -/
theorem codeLines_last {before l : Text} (hbefore : Text.StartsLine before) (hl : '\n' ∉ l)
    (hcode : codePart? comment l = none) (n : UInt32) :
    codeLines comment n (before ++ l).lines = codeLines comment n before.lines := by
  rw [Text.lines_append hbefore, codeLines_append, codeLines_lines_of_notMem hl, hcode,
    Option.map_none, Option.toList_none, List.append_nil]

/-- It is not seen either where the last line is ended for it. -/
theorem codeLines_behind {before l ending : Text} (hl : '\n' ∉ l)
    (hending : ending ∈ Text.lineEndings) (hcode : codePart? comment l = none) (n : UInt32) :
    codeLines comment n (before ++ ending ++ l).lines = codeLines comment n before.lines := by
  obtain ⟨start, m, rfl, hstart, hm⟩ := Text.exists_startsLine_append before
  rw [List.append_assoc start, List.append_assoc start, Text.lines_append hstart,
    Text.lines_append hstart, codeLines_append, codeLines_append,
    codeLines_lines_cons hm hending, codeLines_lines_of_notMem hl,
    codeLines_lines_of_notMem hm, hcode]
  simp

/-- **The same code on the same number of lines.** -/
theorem map_snd_codeLines (h : InsertsLine comment k t t') :
    (codeLines comment 1 t'.lines).map Prod.snd = (codeLines comment 1 t.lines).map Prod.snd := by
  cases h with
  | between before l ending after hbefore hl hending hcode =>
    have htext : before ++ l ++ ending ++ after = before ++ (l ++ ending ++ after) := by simp
    rw [htext, Text.lines_append hbefore, Text.lines_append hbefore, codeLines_append,
      codeLines_append, codeLines_lines_cons hl hending, hcode, Option.map_none, Option.toList_none,
      List.nil_append, List.map_append, List.map_append]
    congr 1
    exact Motion.map_snd_codeLines comment _ _ after.lines
  | behind before l ending hbefore hl hending hcode => rw [codeLines_behind hl hending hcode]
  | last before l hbefore hl hcode => rw [codeLines_last hbefore hl hcode]

/-- No line is lost, and there is one more if the new one is not the last. -/
theorem length_lines (h : InsertsLine comment k t t') :
    t.lines.length ≤ t'.lines.length ∧ (k < t.lines.length → t.lines.length < t'.lines.length) := by
  cases h with
  | between before l ending after hbefore hl hending hcode =>
    have htext : before ++ l ++ ending ++ after = before ++ (l ++ ending ++ after) := by simp
    rw [htext, Text.lines_append hbefore, Text.lines_append hbefore, List.length_append,
      List.length_append, length_lines_cons hl hending]
    omega
  | behind _ l ending hbefore hl hending hcode =>
    obtain ⟨start, m, rfl, hstart, hm⟩ := Text.exists_startsLine_append t
    rw [List.append_assoc start, List.append_assoc start, Text.lines_append hstart,
      Text.lines_append hstart, List.length_append, List.length_append,
      length_lines_cons hm hending, Text.lines_of_notMem hm]
    split <;> simp
  | last _ l hbefore hl hcode =>
    rw [Text.lines_append hbefore, List.length_append]
    omega

end InsertsLine

variable {α : Type} [Scalar α] {o : Options}

namespace Program

/-- **A line without code in front of a text** pushes the text down, and hands on what it was
handed. -/
theorem ofTextAfter_cons {l ending : Text} (hl : '\n' ∉ l) (hending : ending ∈ Text.lineEndings)
    (hcode : codePart? o.comment l = none) (carried : Point α) (t : Text) :
    (ofTextAfter o carried (l ++ ending ++ t) : Program α) = (ofTextAfter o carried t).shift 1 := by
  have hshift := codeLines_shift o.comment 1 (UInt32.ofNat 1) t.lines
  rw [ofTextAfter_eq, ofTextAfter_eq, codeLines_lines_cons hl hending, hcode, ← ofLines_shift,
    ← hshift]
  rfl

/-- A new line behind all others pushes nothing down. -/
theorem makeRoom_ofText {t : Text} (hcount : t.lines.length < 2 ^ 32) :
    (ofText o t : Program α).makeRoom t.lines.length = ofText o t := by
  obtain ⟨hcommands, hdiagnostics⟩ :=
    line_bounds_ofLines o.mode (.origin : Point α) o.comment hcount
  rw [ofText_eq]
  exact makeRoom_of_le (fun c hc => (hcommands c hc).2) fun d hd => (hdiagnostics d hd).2

/-- A new line in front of a text that stands so many lines down pushes all of it down. -/
theorem makeRoom_shift_ofTextAfter {k : Nat} {t : Text} (hcount : k + t.lines.length < 2 ^ 32)
    (carried : Point α) :
    ((ofTextAfter o carried t : Program α).shift k).makeRoom k =
      ((ofTextAfter o carried t).shift k).shift 1 := by
  obtain ⟨hcommands, hdiagnostics⟩ := toNat_line_ofTextAfter o carried hcount
  have hlength : t.lines.length < 2 ^ 32 := by omega
  obtain ⟨hcpos, hdpos⟩ := line_bounds_ofLines o.mode carried o.comment hlength
  rw [← ofTextAfter_eq] at hcpos hdpos
  refine makeRoom_of_lt ?_ ?_
  · intro c hc
    obtain ⟨c, hmem, rfl⟩ := List.mem_map.mp hc
    have hpos := (hcpos c hmem).1
    rw [hcommands c hmem]
    omega
  · intro d hd
    obtain ⟨d, hmem, rfl⟩ := List.mem_map.mp hd
    have hpos := (hdpos d hmem).1
    rw [hdiagnostics d hmem]
    omega

end Program

/-- **A line without code makes room for itself** and changes nothing else. -/
theorem InsertsLine.ofText_eq {k : Nat} {t t' : Text} (h : InsertsLine o.comment k t t')
    (hcount : t'.lines.length < 2 ^ 32) :
    (.ofText o t' : Program α) = (Program.ofText o t).makeRoom k := by
  have hlength := h.length_lines.1
  cases h with
  | between before l ending after hbefore hl hending hcode =>
    have htext : before ++ l ++ ending ++ after = before ++ (l ++ ending ++ after) := by simp
    rw [htext, Text.lines_append hbefore, List.length_append,
      length_lines_cons hl hending] at hcount
    rw [htext, Program.ofText_append_eq o hbefore, Program.ofText_append_eq o hbefore,
      Program.ofTextAfter_cons hl hending hcode, Program.makeRoom_append,
      Program.makeRoom_ofText (by omega), Program.makeRoom_shift_ofTextAfter (by omega),
      Program.shift_shift]
  | behind before l ending hbefore hl hending hcode =>
    rw [Program.makeRoom_ofText (by omega), Program.ofText_eq, codeLines_behind hl hending hcode,
      Program.ofText_eq]
  | last before l hbefore hl hcode =>
    rw [Program.makeRoom_ofText (by omega), Program.ofText_eq, codeLines_last hbefore hl hcode,
      Program.ofText_eq]

/-- **Line numbers behind the new line grow by one**, and the others stay. -/
theorem InsertsLine.toNat_line_makeRoom {k : Nat} {t t' : Text} (h : InsertsLine o.comment k t t')
    (hcount : t'.lines.length < 2 ^ 32) :
    (∀ c ∈ (Program.ofText o t : Program α).commands,
        (c.makeRoom k).line.toNat = c.line.toNat + if k < c.line.toNat then 1 else 0) ∧
      ∀ d ∈ (Program.ofText o t : Program α).diagnostics,
        (d.makeRoom k).line.toNat = d.line.toNat + if k < d.line.toNat then 1 else 0 := by
  obtain ⟨hle, hlt⟩ := h.length_lines
  have hlength : t.lines.length < 2 ^ 32 := by omega
  obtain ⟨hcommands, hdiagnostics⟩ :=
    line_bounds_ofLines o.mode (.origin : Point α) o.comment hlength
  rw [← Program.ofText_eq] at hcommands hdiagnostics
  have hgrow {line : UInt32} (hline : line.toNat ≤ t.lines.length) (hk : k < line.toNat) :
      (line + UInt32.ofNat 1).toNat = line.toNat + 1 :=
    toNat_line_shift (Nat.le_refl _) (by omega)
  constructor
  · intro c hc
    unfold Command.makeRoom
    split
    · exact hgrow (hcommands c hc).2 ‹_›
    · rfl
  · intro d hd
    unfold Diagnostic.makeRoom
    split
    · cases d with
      | badWord line text word reason => exact hgrow (hdiagnostics _ hd).2 ‹_›
      | badFile path reason => exact absurd ‹_› (Nat.not_lt_zero k)
    · rfl

/-! ## 7. Any number of edits -/

/-- One edit that only a reader sees. -/
def Edit (comment : Char) (t t' : Text) : Prop :=
  Pads comment t t' ∨ ∃ k, InsertsLine comment k t t'

/-- **One edit** leaves the code of all lines. -/
theorem Edit.map_snd_codeLines {comment : Char} (hcomment : comment ≠ '\n') {t t' : Text}
    (h : Edit comment t t') :
    (codeLines comment 1 t'.lines).map Prod.snd = (codeLines comment 1 t.lines).map Prod.snd := by
  rcases h with h | ⟨k, h⟩
  · rw [h.codeLines_eq hcomment]
  · exact h.map_snd_codeLines

/-- **Any number of edits** leaves the tool path, and the number of commands. -/
theorem toolpath_ofText_edits (ho : o.comment ≠ '\n') {t t' : Text}
    (h : Relation.ReflTransGen (Edit o.comment) t t') :
    (Simulation.ofText o t' : Simulation α).toolpath = (Simulation.ofText o t).toolpath ∧
      (Simulation.ofText o t' : Simulation α).commandCount =
        (Simulation.ofText o t : Simulation α).commandCount := by
  induction h with
  | refl => exact ⟨rfl, rfl⟩
  | @tail t' t'' _ hedit ih =>
    have hsound := congrArg (List.map (soundWords α)) (hedit.map_snd_codeLines ho)
    rw [List.map_map, List.map_map] at hsound
    obtain ⟨htoolpath, hcount⟩ := toolpath_ofText_congr (α := α) o hsound
    exact ⟨htoolpath.trans ih.1, hcount.trans ih.2⟩

/-- **Edits that only a reader sees leave no trace.**

Where a comment does not start with a line feed, padding the lines of a text with blanks and
comments leaves the whole program as it is.  A line more without code leaves it as it is but for the
line numbers behind the new line, which grow by one, as long as the text has fewer than 2^32 lines.
And after any number of such edits the tool path is the same, and with it everything that is
computed from it: segments, summary, bounds and strips. -/
theorem edits_leave_no_trace (o : Options) (ho : o.comment ≠ '\n') (t t' : Text) :
    (Pads o.comment t t' → (Program.ofText o t' : Program α) = .ofText o t) ∧
      (∀ k, InsertsLine o.comment k t t' → t'.lines.length < 2 ^ 32 →
        (Program.ofText o t' : Program α) = (Program.ofText o t).makeRoom k ∧
          (∀ c ∈ (Program.ofText o t : Program α).commands,
            (c.makeRoom k).line.toNat = c.line.toNat + if k < c.line.toNat then 1 else 0) ∧
          ∀ d ∈ (Program.ofText o t : Program α).diagnostics,
            (d.makeRoom k).line.toNat = d.line.toNat + if k < d.line.toNat then 1 else 0) ∧
      (Relation.ReflTransGen (Edit o.comment) t t' →
        (Simulation.ofText o t' : Simulation α).toolpath = (Simulation.ofText o t).toolpath ∧
          (Simulation.ofText o t' : Simulation α).commandCount =
            (Simulation.ofText o t : Simulation α).commandCount) := by
  refine ⟨fun h => ?_, fun k h hcount => ⟨h.ofText_eq hcount, h.toNat_line_makeRoom hcount⟩,
    toolpath_ofText_edits ho⟩
  rw [Program.ofText_eq, h.codeLines_eq ho, Program.ofText_eq]

/-- Two lines, the first one with a comment that looks like code, and a comment between them. -/
theorem edits_leave_no_trace_two_lines :
    let o : Options := ⟨.modal, ';'⟩
    let plain : Text := "G0 X1\r\nG1 Y2".toList
    let noted : Text := "G0 X1;Z5\r\nG1 Y2".toList
    let parted : Text := "G0 X1\r\n\t; Z5\r\nG1 Y2".toList
    Pads ';' plain noted ∧ (Program.ofText o noted : Program Float) = .ofText o plain ∧
      InsertsLine ';' 1 plain parted ∧
      (Program.ofText o parted : Program Float) = (Program.ofText o plain).makeRoom 1 ∧
      (Simulation.ofText o parted : Simulation Float).toolpath =
        (Simulation.ofText o plain).toolpath := by
  intro o plain noted parted
  have hpads : Pads ';' plain noted :=
    .remark "G0 X1".toList "Z5".toList "\r\nG1 Y2".toList (by decide)
      (Or.inr ⟨['\r', '\n'], by decide, by decide⟩)
  have hinserts : InsertsLine ';' 1 plain parted :=
    .between "G0 X1\r\n".toList "\t; Z5".toList ['\r', '\n'] "G1 Y2".toList
      (Or.inr (by decide)) (by decide) (by decide) (by decide)
  have hcount : parted.lines.length < 2 ^ 32 := by decide
  obtain ⟨hprogram, -, -⟩ := edits_leave_no_trace (α := Float) o (by decide) plain noted
  obtain ⟨-, hroom, htoolpath⟩ := edits_leave_no_trace (α := Float) o (by decide) plain parted
  exact ⟨hpads, hprogram hpads, hinserts, (hroom 1 hinserts hcount).1,
    (htoolpath (.single (Or.inr ⟨1, hinserts⟩))).1⟩

end Motion
