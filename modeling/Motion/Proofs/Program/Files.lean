/-
# A file loads as its text

The lines of a file are found among its bytes and decoded one by one; the lines of a text are found
among its characters.  This module proves that both ways give one program: the file's is that of
the text that its bytes, all of them, decode to (`ofFile_eq_ofText`).

Three things have to be seen.

* **Line feeds.**  The decoder writes a line feed for the byte 10 and for nothing else, and starts
  afresh behind it, also where a line feed cuts a character short.  So the pieces of the bytes and
  the lines of the text correspond (`map_codePart?_lines`).
* **Carriage returns.**  The file loses one at the end of its last line, where the text keeps it,
  and loses it before decoding, where the text loses it after.  A carriage return is blank, so what
  is left of the line is the same, whatever starts a comment (`codePart?_dropFinal`).
* **Line numbers.**  The file counts the lines that it has read and the text the places in its list
  of lines; `visitPieces_feed` says that the two counts agree, from any number on.
-/
import Motion.CommandLine.Run
import Motion.Proofs.Program.Loading
import Motion.Proofs.Text.Decoding
import Motion.Proofs.Text.Lines

namespace Motion

/-! ## 1. Carriage returns -/

/-- **Blanks at the end of a raw line leave no code.**  If a comment starts before them they belong
to it, if it starts among them the rest of them is trimmed, and otherwise all are. -/
theorem codePart?_append_blanks {bs : Text} (h : ∀ c ∈ bs, Text.isBlank c = true) (comment : Char)
    (raw : Text) : codePart? comment (raw ++ bs) = codePart? comment raw := by
  have htake : ∀ c ∈ bs.takeWhile (· != comment), Text.isBlank c = true :=
    fun c hc => h c ((List.takeWhile_sublist _).subset hc)
  unfold codePart?
  rw [List.takeWhile_append]
  split
  · rename_i hall
    have hraw : raw.takeWhile (· != comment) = raw :=
      (List.takeWhile_prefix _).eq_of_length hall
    rw [Text.trim_append htake, hraw]
  · rfl

theorem codePart?_append_return (comment : Char) (raw : Text) :
    codePart? comment (raw ++ ['\r']) = codePart? comment raw :=
  codePart?_append_blanks (by simp [Text.isBlank]) comment raw

theorem codePart?_dropFinal (comment : Char) (raw : Text) :
    codePart? comment (Text.dropFinal '\r' raw) = codePart? comment raw := by
  unfold Text.dropFinal
  split
  · rename_i hlast
    obtain ⟨raw, rfl⟩ := List.getLast?_eq_some_iff.mp (by simpa using hlast)
    rw [List.dropLast_concat, codePart?_append_return]
  · rfl

/-! ## 2. Pieces and lines -/

namespace Source

theorem piecesOf_of_notMem {l : List UInt8} (h : 10 ∉ l) :
    piecesOf l = if l.isEmpty then [] else [l] := by
  simp [piecesOf, Text.cut_of_notMem h]

theorem piecesOf_cons_feed {l : List UInt8} (h : 10 ∉ l) (rest : List UInt8) :
    piecesOf (l ++ 10 :: rest) = (l ++ [10]) :: piecesOf rest := by
  simp [piecesOf, Text.cut_cons_feed h]

/-- The text of a line, decoded from its piece of a file. -/
def lineText (piece : List UInt8) : Text := Text.decode (lineBytes piece)

/-- What is left of a line when its carriage return is dropped before it is decoded. -/
theorem codePart?_lineText {l : List UInt8} (h : 10 ∉ l) (comment : Char) :
    codePart? comment (lineText (l ++ [10])) = codePart? comment (Text.decode l) ∧
      codePart? comment (lineText l) = codePart? comment (Text.decode l) := by
  have hreturn : codePart? comment (Text.decode (Text.dropFinal 13 l))
      = codePart? comment (Text.decode l) := by
    unfold Text.dropFinal
    split
    · rename_i hlast
      obtain ⟨l, rfl⟩ := List.getLast?_eq_some_iff.mp (by simpa using hlast)
      rw [List.dropLast_concat, Text.decode_append_ascii l (by decide) []]
      exact (codePart?_append_return comment (Text.decode l)).symm
    · rfl
  constructor
  · rw [lineText, lineBytes, Text.dropFinal_concat, hreturn]
  · rw [lineText, lineBytes, Text.dropFinal_of_notMem h, hreturn]

/-- **The pieces of some bytes and the lines of their text**, seen through what is left of them:
they are as many, and each piece leaves what its line leaves. -/
theorem map_codePart?_lines (comment : Char) (bytes : List UInt8) :
    (Text.lines (Text.decode bytes)).map (codePart? comment) =
      ((piecesOf bytes).map lineText).map (codePart? comment) := by
  have hfeed : ∀ l : List UInt8, 10 ∉ l → '\n' ∉ Text.decode l := by
    intro l hl hmem
    obtain ⟨b, hb, heq⟩ := Text.mem_of_mem_decode hmem (by decide)
    exact hl ((UInt8.toNat_inj.mp heq : b = 10) ▸ hb)
  induction bytes using Text.feed_induction (10 : UInt8) with
  | last l hl =>
    rw [Text.lines_of_notMem (hfeed l hl), piecesOf_of_notMem hl]
    simp only [List.isEmpty_iff, Text.decode_eq_nil_iff]
    split
    · rfl
    · simp [(codePart?_lineText hl comment).2]
  | line l rest hl ih =>
    have hdecode : Text.decode (l ++ 10 :: rest) = Text.decode l ++ '\n' :: Text.decode rest :=
      Text.decode_append_ascii l (by decide) rest
    rw [hdecode, Text.lines_cons_feed (hfeed l hl), piecesOf_cons_feed hl]
    simp only [List.map_cons, ih, codePart?_dropFinal, (codePart?_lineText hl comment).1]

/-- The line itself is not the same: at the end of the bytes a text keeps its carriage return. -/
example :
    (piecesOf [71, 48, 13]).map lineText = [['G', '0']] ∧
      Text.lines (Text.decode [71, 48, 13]) = [['G', '0', '\r']] := by
  decide

/-! ## 3. Visiting a file and feeding its lines -/

variable {α : Type} [Scalar α]

@[simp]
theorem lines_count (stats : ReadStats) (piece : List UInt8) :
    (count stats piece).lines = stats.lines + 1 := by
  rw [count]
  split <;> rfl

/-- **A visit that never stops feeds all lines**, numbered on from the lines counted so far. -/
theorem visitPieces_feed (o : Options) (stats : ReadStats) (s : Loader α)
    (pieces : List (List UInt8)) :
    visitPieces (fun line raw s => (Loader.feed o s line raw, none)) stats s pieces =
      (s.feedAll o (UInt32.ofNat (stats.lines + 1)) (pieces.map lineText),
        pieces.foldl count stats, none) := by
  induction pieces generalizing stats s with
  | nil => rfl
  | cons piece rest ih =>
    have hline : UInt32.ofNat (stats.lines + 1 + 1) = UInt32.ofNat (stats.lines + 1) + 1 :=
      UInt32.ofNat_add ..
    simp only [visitPieces, ih, lines_count, hline]
    rfl

theorem ofFile_ofBytes (o : Options) (path : Text) (bytes : List UInt8) :
    (Program.ofFile o path (.ok (ofBytes bytes)) : Program α) =
      .ofLines o.mode .origin (codeLines o.comment 1 ((piecesOf bytes).map lineText)) := by
  simp only [Program.ofFile, visit, ofBytes, visitPieces_feed]
  exact Loader.program_feedAll o .origin 1 ((piecesOf bytes).map lineText)

end Source

/-! ## 4. The file and its text -/

variable {α : Type} [Scalar α]

theorem Program.ofFile_ofBytes (o : Options) (path : Text) (bytes : List UInt8) :
    (ofFile o path (.ok (.ofBytes bytes)) : Program α) = ofText o (Text.decode bytes) := by
  rw [Source.ofFile_ofBytes, Program.ofText_eq,
    codeLines_congr (Source.map_codePart?_lines o.comment bytes)]

/-- **A file loads as the text that its bytes decode to**: the same commands, with their line
numbers and sources, and the same diagnostics in the same order; and so both are traced to the same
segments.  No byte, comment character or mode is excluded. -/
theorem ofFile_eq_ofText (o : Options) (path : Text) (bytes : List UInt8) :
    let opened := Source.ofNode path (some (.file bytes))
    (Program.ofFile o path opened : Program α) = .ofText o (Text.decode bytes) ∧
      (Simulation.ofFile o path opened : Simulation α) = .ofText o (Text.decode bytes) := by
  have hprogram : (Program.ofFile o path (.ok (.ofBytes bytes)) : Program α)
      = .ofText o (Text.decode bytes) := Program.ofFile_ofBytes o path bytes
  refine ⟨hprogram, ?_⟩
  simp only [Source.ofNode, Simulation.ofFile, Simulation.ofText, hprogram]

end Motion
