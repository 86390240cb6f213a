/-
# Two spellings of one program

The same program can be written in capital or small letters, and with other blanks between its
words.  `Respelled` relates two such texts, and `ofText_respelled` says that they are one program:
the same codes, coordinates and line numbers, the same faults in the same places, and the same tool
path.  What differs is what is quoted from the text, and nothing else.

The reason is that a line is read by its words, and a word in either case.  So all that has to be
compared are the words of the lines, in small letters (`folded`), and where the lines are.  Both are
found from left to right, and a blank or a line feed stands at the same place in both spellings; so
does the comment character, if it is neither a letter nor a blank.  A letter would not do: `M` as a
comment character is another one than `m`.
-/
import Motion.Proofs.Program.Edits
import Motion.Proofs.Program.WordByWord
import Motion.Proofs.Text.LetterCase

namespace Motion

namespace Text

/-! ## 1. Spellings -/

/-- What stands between the words of a line: one or more blanks. -/
structure IsSpace (bs : Text) : Prop where
  ne_nil : bs ≠ []
  blank : ∀ b ∈ bs, isBlank b
  feed : '\n' ∉ bs

/-- A text and another spelling of it: each character may stand in its other case, and each run of
blanks inside a line may be any other one. -/
inductive Respelled : Text → Text → Prop
  | nil : Respelled [] []
  | char {c d : Char} {t u : Text} (hcase : c.toLower = d.toLower) (h : Respelled t u) :
      Respelled (c :: t) (d :: u)
  | space {bs ds t u : Text} (hbs : IsSpace bs) (hds : IsSpace ds) (h : Respelled t u) :
      Respelled (bs ++ t) (ds ++ u)

namespace Respelled

theorem refl (t : Text) : Respelled t t := by
  induction t with
  | nil => exact .nil
  | cons c t ih => exact .char rfl ih

theorem append {t u t' u' : Text} (h : Respelled t u) (h' : Respelled t' u') :
    Respelled (t ++ t') (u ++ u') := by
  induction h with
  | nil => exact h'
  | char hcase _ ih => exact .char hcase ih
  | space hbs hds _ ih =>
    rw [List.append_assoc, List.append_assoc]
    exact .space hbs hds ih

/-- A spelling, all of it in one case. -/
theorem map_right {t u : Text} (h : Respelled t u) {case : Char → Char}
    (hcase : ∀ c, (case c).toLower = c.toLower) : Respelled t (u.map case) := by
  induction h with
  | nil => exact .nil
  | char h _ ih => exact .char (h.trans (hcase _).symm) ih
  | @space bs ds t u hbs hds _ ih =>
    have hsame : ∀ d ∈ ds, case d = d := fun d hd => by
      have hletter := isAlpha_of_isBlank (hds.blank d hd)
      rw [← toLower_eq_iff hletter, hcase, toLower_eq_iff hletter]
    rw [List.map_append, List.map_congr_left hsame, List.map_id']
    exact .space hbs hds ih

end Respelled

/-! ## 2. Words in small letters -/

/-- The words of a text, in small letters. -/
def folded (t : Text) : List Text := t.words.map (List.map Char.toLower)

/-- A run of characters that are not blank is at most one word. -/
theorem folded_run {run : Text} (h : ∀ c ∈ run, isBlank c = false) :
    folded run = if run.map Char.toLower = [] then [] else [run.map Char.toLower] := by
  cases run with
  | nil => rfl
  | cons c run =>
    rw [folded, words_run (List.cons_ne_nil c run) h]
    rfl

theorem folded_append_blank {c : Char} (hc : isBlank c) (a b : Text) :
    folded (a ++ c :: b) = folded a ++ folded b := by
  rw [folded, words_append_blank hc, List.map_append, folded, folded]

theorem folded_append_space {bs : Text} (h : IsSpace bs) (a b : Text) :
    folded (a ++ (bs ++ b)) = folded a ++ folded b := by
  cases bs with
  | nil => exact absurd rfl h.ne_nil
  | cons c bs =>
    have hrest : words (bs ++ b) = words b :=
      words_of_isBlank (fun d hd => h.blank d (List.mem_cons_of_mem c hd)) b
    rw [List.cons_append, folded_append_blank (h.blank c List.mem_cons_self), folded, folded, hrest,
      folded]

/-- **The words of two spellings** are the same in small letters.  So they are where the spellings
are read behind the beginning of a word, `a` in the one and `b` in the other. -/
theorem Respelled.folded_append {t u : Text} (h : Respelled t u) {a b : Text}
    (ha : ∀ c ∈ a, isBlank c = false) (hb : ∀ c ∈ b, isBlank c = false)
    (hcase : a.map Char.toLower = b.map Char.toLower) : folded (a ++ t) = folded (b ++ u) := by
  have hsame {a b : Text} (ha : ∀ c ∈ a, isBlank c = false) (hb : ∀ c ∈ b, isBlank c = false)
      (hcase : a.map Char.toLower = b.map Char.toLower) : folded a = folded b := by
    rw [folded_run ha, folded_run hb, hcase]
  induction h generalizing a b with
  | nil =>
    rw [List.append_nil, List.append_nil]
    exact hsame ha hb hcase
  | @char c d t u hletter _ ih =>
    have hblank : isBlank c = isBlank d :=
      congr_of_toLower_eq (fun _ => isAlpha_of_isBlank) hletter
    cases hc : isBlank c with
    | true =>
      -- the word ends in both
      have hrest : folded t = folded u := ih (a := []) (b := []) (by simp) (by simp) rfl
      rw [folded_append_blank hc, folded_append_blank (hblank ▸ hc), hsame ha hb hcase, hrest]
    | false =>
      have hmore := ih (a := a ++ [c]) (b := b ++ [d])
        (by simpa [or_imp, forall_and] using ⟨ha, hc⟩)
        (by simpa [or_imp, forall_and] using ⟨hb, hblank ▸ hc⟩)
        (by rw [List.map_append, List.map_append, hcase, List.map_singleton, List.map_singleton,
          hletter])
      rwa [List.append_assoc, List.append_assoc] at hmore
  | space hbs hds _ ih =>
    have hrest := ih (a := []) (b := []) (by simp) (by simp) rfl
    rw [folded_append_space hbs, folded_append_space hds, hsame ha hb hcase]
    exact congrArg _ hrest

theorem Respelled.folded_eq {t u : Text} (h : Respelled t u) : folded t = folded u :=
  h.folded_append (a := []) (b := []) (by simp) (by simp) rfl

/-! ## 3. Lines -/

/-- What stands before the first character at which something ends, in both spellings. -/
theorem Respelled.takeWhile {p : Char → Bool} (hletters : ∀ c, p c = false → c.isAlpha = false)
    (hblanks : ∀ c, isBlank c → p c) {t u : Text} (h : Respelled t u) :
    Respelled (t.takeWhile p) (u.takeWhile p) := by
  induction h with
  | nil => exact .nil
  | @char c d t u hcase _ ih =>
    have hend : (!p c) = !p d :=
      congr_of_toLower_eq (p := fun c => !p c) (fun c hc => hletters c (by simpa using hc)) hcase
    rw [Bool.not_inj_iff] at hend
    rw [List.takeWhile_cons, List.takeWhile_cons, ← hend]
    split
    · exact .char hcase ih
    · exact .nil
  | space hbs hds _ ih =>
    rw [List.takeWhile_append_of_pos fun b hb => hblanks b (hbs.blank b hb),
      List.takeWhile_append_of_pos fun d hd => hblanks d (hds.blank d hd)]
    exact .space hbs hds ih

/-- What is left of a line, by its words. -/
theorem map_folded_codePart? (comment : Char) (raw : Text) :
    (codePart? comment raw).map folded =
      if folded (raw.takeWhile (· != comment)) = [] then none
      else some (folded (raw.takeWhile (· != comment))) := by
  have hempty : (trim (raw.takeWhile (· != comment))).isEmpty ↔
      folded (raw.takeWhile (· != comment)) = [] := by
    rw [List.isEmpty_iff, trim_eq_nil_iff, folded, List.map_eq_nil_iff]
  have hfolded (t : Text) : folded (trim t) = folded t := by rw [folded, words_trim, folded]
  simp only [codePart?, hempty]
  split
  · rfl
  · exact congrArg some (hfolded _)

namespace Respelled

section

variable {comment : Char} (hletter : comment.isAlpha = false) (hblank : isBlank comment = false)
include hletter hblank

theorem map_folded_codePart? {l m : Text} (h : Respelled l m) :
    (codePart? comment l).map folded = (codePart? comment m).map folded := by
  have hcode : Respelled (l.takeWhile (· != comment)) (m.takeWhile (· != comment)) := by
    refine h.takeWhile (fun c hc => ?_) fun c hc => ?_
    · obtain rfl : c = comment := by simpa using hc
      exact hletter
    · exact bne_iff_ne.mpr (ne_of_holds hc hblank)
  rw [Text.map_folded_codePart?, Text.map_folded_codePart?, hcode.folded_eq]

/-- **The lines of two spellings** have the same numbers, and the same words in small letters.  So
they have where the spellings are read behind the beginning of a line, `l` in the one and `m` in the
other. -/
theorem codeLines_append {t u : Text} (h : Respelled t u) {l m : Text} (hl : '\n' ∉ l)
    (hm : '\n' ∉ m) (hlm : Respelled l m) (n : UInt32) :
    (codeLines comment n (l ++ t).lines).map (Prod.map id folded) =
      (codeLines comment n (m ++ u).lines).map (Prod.map id folded) := by
  have hline {l m : Text} (hlm : Respelled l m) (n : UInt32) :
      ((codePart? comment l).map (n, ·)).toList.map (Prod.map id folded) =
        ((codePart? comment m).map (n, ·)).toList.map (Prod.map id folded) := by
    have hnumbered (code : Option Text) :
        (code.map (n, ·)).toList.map (Prod.map id folded) =
          ((code.map folded).map (n, ·)).toList := by
      cases code <;> rfl
    rw [hnumbered, hnumbered, hlm.map_folded_codePart? hletter hblank]
  induction h generalizing l m n with
  | nil =>
    rw [List.append_nil, List.append_nil, codeLines_lines_of_notMem hl,
      codeLines_lines_of_notMem hm, hline hlm]
  | @char c d t u hcase h ih =>
    have hfeed : (c == '\n') = (d == '\n') :=
      congr_of_toLower_eq (p := (· == '\n')) (fun c hc => by rw [eq_of_beq hc]; rfl) hcase
    by_cases hc : c = '\n'
    · -- the line ends in both
      have hd : d = '\n' := by simpa [hc] using hfeed
      have hrest := ih (l := []) (m := []) (by simp) (by simp) .nil (n + 1)
      rw [hc, hd, codeLines_lines_cons_feed hl, codeLines_lines_cons_feed hm, List.map_append,
        List.map_append, hline hlm]
      exact congrArg _ hrest
    · have hd : d ≠ '\n' := by simpa [hc] using hfeed
      have hmore := ih (l := l ++ [c]) (m := m ++ [d]) (by simp [hl, Ne.symm hc])
        (by simp [hm, Ne.symm hd]) (hlm.append (.char hcase .nil)) n
      rwa [List.append_assoc, List.append_assoc] at hmore
  | @space bs ds t u hbs hds h ih =>
    have hspace : Respelled bs ds := by simpa using Respelled.space hbs hds .nil
    have hmore := ih (l := l ++ bs) (m := m ++ ds) (by simp [hl, hbs.feed]) (by simp [hm, hds.feed])
      (hlm.append hspace) n
    rwa [List.append_assoc, List.append_assoc] at hmore

theorem map_folded_codeLines {t u : Text} (h : Respelled t u) (n : UInt32) :
    (codeLines comment n t.lines).map (Prod.map id folded) =
      (codeLines comment n u.lines).map (Prod.map id folded) :=
  h.codeLines_append hletter hblank (l := []) (m := []) (by simp) (by simp) .nil n

end

end Respelled
end Text

open Text (Respelled folded)

/-! ## 4. Commands and warnings -/

variable {α : Type}

/-- A command without the text that it was read from. -/
def Command.unquoted (c : Command α) : Command α := { c with source := [] }

/-- A warning without the line and the word that it quotes. -/
def Diagnostic.unquoted : Diagnostic → Diagnostic
  | badWord line _ _ reason => badWord line [] [] reason
  | badFile path reason => badFile path reason

/-- Commands that are the same but for their places are the same but for what they quote, if they
stand on lines of the same numbers. -/
theorem map_unquoted_congr {cs ds : List (Command α)}
    (hplaced : cs.map (Command.placed 0 []) = ds.map (Command.placed 0 []))
    (hline : cs.map Command.line = ds.map Command.line) :
    cs.map Command.unquoted = ds.map Command.unquoted := by
  have hzip (cs : List (Command α)) : cs.map Command.unquoted =
      List.zipWith (fun c line => c.placed line []) (cs.map (Command.placed 0 []))
        (cs.map Command.line) := by
    induction cs with
    | nil => rfl
    | cons c cs ih =>
      simp only [List.map_cons, List.zipWith_cons_cons, ih]
      rfl
  rw [hzip, hzip, hplaced, hline]

variable [Scalar α]

/-- **A word is read in either case**, and so are its faults. -/
theorem readWord_map_toLower (w : Text) :
    (readWord (w.map Char.toLower) : Option (Except WordFault (Entry α))) = readWord w := by
  cases w with
  | nil => rfl
  | cons letter payload =>
    have haddress : Address.ofLetter? letter.toLower = Address.ofLetter? letter := by
      rw [Address.ofLetter?, Char.toUpper_toLower_eq_toUpper, ← Address.ofLetter?]
    have hread (a : Address) : (a.read (payload.map Char.toLower) : Except WordFault (Entry α)) =
        a.read payload := by
      cases a with
      | field f => rw [Address.read, Address.read, Scalar.read_map_toLower]
      | _ => rw [Address.read, Address.read, Text.readInteger_map_toLower]
    rw [List.map_cons, readWord, readWord, haddress]
    exact congrArg (Option.map · (Address.ofLetter? letter)) (funext hread)

/-- **A line is read by its words in small letters.** -/
theorem entries_eq_filterMap_folded (text : Text) :
    (entries text : List (Entry α)) = (folded text).filterMap entryOf? := by
  have hentry (w : Text) : (entryOf? (w.map Char.toLower) : Option (Entry α)) = entryOf? w := by
    simp only [entryOf?, readWord_map_toLower]
  rw [folded, List.filterMap_map]
  exact List.filterMap_congr fun w _ => (hentry w).symm

/-- The same for its warnings, but for what they quote. -/
theorem map_unquoted_lineWarnings (line : UInt32) (text : Text) :
    (lineWarnings α line text).map Diagnostic.unquoted =
      (folded text).filterMap fun w =>
        (wordFault? α w).map fun fault => .badWord line [] [] fault.message := by
  have hfault (w : Text) : wordFault? α (w.map Char.toLower) = wordFault? α w := by
    simp only [wordFault?, readWord_map_toLower]
  rw [folded, List.filterMap_map, lineWarnings, List.map_filterMap]
  refine List.filterMap_congr fun w _ => ?_
  rw [Function.comp_apply, hfault, wordWarning?_eq]
  cases wordFault? α w <;> rfl

theorem map_line_readLines (mode : CoordinateMode) (carried : Point α)
    (lines : List (UInt32 × Text)) :
    (readLines mode carried lines).map Command.line = lines.map Prod.fst := by
  induction lines generalizing carried with
  | nil => rfl
  | cons e rest ih => rw [readLines, List.map_cons, line_readLine, ih, List.map_cons]

/-! ## 5. Programs -/

/-- **Two spellings are one program.**

Take two texts that differ in the case of letters, and in what stands for each run of blanks inside
a line.  Where a comment starts with a character that is neither a letter nor a blank, the two have
the same commands and the same warnings, in the same order and on lines of the same numbers, but for
what these quote from the text; and they have the same tool path. -/
theorem ofText_respelled (o : Options) (hletter : o.comment.isAlpha = false)
    (hblank : Text.isBlank o.comment = false) {t u : Text} (h : Respelled t u) :
    let p : Program α := .ofText o t
    let q : Program α := .ofText o u
    p.commands.map Command.unquoted = q.commands.map Command.unquoted ∧
      p.diagnostics.map Diagnostic.unquoted = q.diagnostics.map Diagnostic.unquoted ∧
      (Simulation.ofText o t : Simulation α).toolpath = (Simulation.ofText o u).toolpath := by
  intro p q
  have hlines := h.map_folded_codeLines hletter hblank 1
  have hp : p = .ofLines o.mode .origin (codeLines o.comment 1 t.lines) := Program.ofText_eq o t
  have hq : q = .ofLines o.mode .origin (codeLines o.comment 1 u.lines) := Program.ofText_eq o u
  have hplaced : p.commands.map (Command.placed 0 []) = q.commands.map (Command.placed 0 []) := by
    rw [hp, hq]
    refine map_placed_readLines_congr o.mode .origin ?_
    have hentries := congrArg (List.map fun e : UInt32 × List Text =>
      e.2.filterMap (entryOf? (α := α))) hlines
    simp only [List.map_map] at hentries
    simp only [entries_eq_filterMap_folded]
    exact hentries
  have hline : p.commands.map Command.line = q.commands.map Command.line := by
    rw [hp, hq]
    have hnumbers := congrArg (List.map Prod.fst) hlines
    simp only [List.map_map] at hnumbers
    rw [Program.ofLines, Program.ofLines, map_line_readLines, map_line_readLines]
    exact hnumbers
  refine ⟨map_unquoted_congr hplaced hline, ?_, (toolpath_ofText_of_map_placed hplaced).1⟩
  rw [hp, hq]
  have hwarnings := congrArg (List.flatMap fun e : UInt32 × List Text =>
    e.2.filterMap fun w => (wordFault? α w).map fun fault =>
      Diagnostic.badWord e.1 [] [] fault.message) hlines
  simp only [List.flatMap_map] at hwarnings
  simp only [Program.ofLines, warningsOf, List.map_flatMap, map_unquoted_lineWarnings]
  exact hwarnings

/-- Two lines in small letters, a malformed word among theirs, and the same in capitals with other
blanks. -/
theorem ofText_respelled_capitals :
    let t : Text := "g1\tx1e1 Zq ;m\n y2".toList
    let u : Text := ("g1  x1e1\tZq ;m\n\t\u00a0y2".toList).map Char.toUpper
    Respelled t u ∧ u = "G1  X1E1\tZQ ;M\n\t\u00a0Y2".toList ∧
      (Program.ofText ⟨.modal, ';'⟩ t : Program Float).commands.map Command.unquoted =
        (Program.ofText ⟨.modal, ';'⟩ u).commands.map Command.unquoted ∧
      (Program.ofText ⟨.modal, ';'⟩ t : Program Float).diagnostics.map Diagnostic.unquoted =
        (Program.ofText ⟨.modal, ';'⟩ u : Program Float).diagnostics.map Diagnostic.unquoted ∧
      (Simulation.ofText ⟨.modal, ';'⟩ t : Simulation Float).toolpath =
        (Simulation.ofText ⟨.modal, ';'⟩ u).toolpath := by
  intro t u
  have htab : Text.IsSpace ['\t'] := ⟨by simp, by simp [Text.isBlank], by simp⟩
  have hblank : Text.IsSpace [' '] := ⟨by simp, by simp [Text.isBlank], by simp⟩
  have hblanks : Text.IsSpace [' ', ' '] := ⟨by simp, by simp [Text.isBlank], by simp⟩
  have hmixed : Text.IsSpace ['\t', '\u00a0'] := ⟨by simp, by simp [Text.isBlank], by simp⟩
  have hspaced : Respelled t "g1  x1e1\tZq ;m\n\t\u00a0y2".toList :=
    .append (.refl "g1".toList) (.space htab hblanks
      (.append (.refl "x1e1".toList) (.space hblank htab
        (.append (.refl "Zq ;m\n".toList) (.space hblank hmixed (.refl "y2".toList))))))
  have h : Respelled t u := hspaced.map_right Char.toLower_toUpper_eq_toLower
  exact ⟨h, by decide, ofText_respelled ⟨.modal, ';'⟩ (by decide) (by decide) h⟩

end Motion
