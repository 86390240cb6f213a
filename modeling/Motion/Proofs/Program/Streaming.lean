/-
# A visit reads the lines of a file

What a visitor of a file may rely on, whatever it does with the lines and whatever the bytes are.

* **The lines.**  They are what the bytes consist of: put back together, each with its ending, they
  are the bytes (`AreLines`).  An ending is a line feed, or a carriage return and a line feed; only
  the last line may end with neither or with a carriage return alone, and then it is there only if
  there is a byte of it.  This leaves no choice where a line ends.
* **The calls.**  The visitor is called for the lines in their order, with the numbers 1, 2 and so
  on, until it gives a reason to stop; that call is the last one.  `logged` is a visitor that notes
  down its calls and otherwise does what it does.
* **The account.**  Without a reason to stop all bytes and lines are counted, and the lines that are
  no UTF-8.  There is such a line exactly if the bytes are no UTF-8 (`isUtf8_eq_all`), because a
  line ending is ASCII and so cuts no character.

Numbers of lines are words of 32 bits, so behind 2^32 - 1 lines they start over at 0.
-/
import Motion.Proofs.Program.Files

namespace Motion

/-! ## 1. The lines of some bytes -/

/-- A line of a file: what is in it, and the bytes that end it. -/
structure FileLine where
  content : List UInt8
  ending : List UInt8
  deriving Repr, DecidableEq

namespace FileLine

/-- All bytes of a line. -/
def bytes (l : FileLine) : List UInt8 := l.content ++ l.ending

/-- The ending has a line feed, after a carriage return or not. -/
def IsEnded (l : FileLine) : Prop := l.ending = [10] ∨ l.ending = [13, 10]

/-- A line that may stand anywhere in a file, or at its end: no line feed is in it, and if the
ending has no carriage return then because there is none. -/
structure IsLine (l : FileLine) : Prop where
  content : 10 ∉ l.content
  ending : l.IsEnded ∨ l.ending = [] ∧ l.content ≠ [] ∨ l.ending = [13]
  stripped : 13 ∉ l.ending → l.content.getLast? ≠ some 13

/-- The line of a piece of a file. -/
def ofPiece (piece : List UInt8) : FileLine :=
  ⟨Source.lineBytes piece, piece.drop (Source.lineBytes piece).length⟩

end FileLine

/-- Some bytes consist of these lines. -/
structure AreLines (bytes : List UInt8) (lines : List FileLine) : Prop where
  joined : lines.flatMap FileLine.bytes = bytes
  isLine : ∀ l ∈ lines, l.IsLine
  isEnded : ∀ l ∈ lines.dropLast, l.IsEnded

/-- The lines of some bytes. -/
def fileLines (bytes : List UInt8) : List FileLine :=
  (Source.piecesOf bytes).map FileLine.ofPiece

theorem AreLines.cons {l : FileLine} {rest : List UInt8} {lines : List FileLine}
    (h : AreLines rest lines) (hl : l.IsLine) (hended : l.IsEnded) :
    AreLines (l.bytes ++ rest) (l :: lines) where
  joined := by rw [List.flatMap_cons, h.joined]
  isLine := List.forall_mem_cons.mpr ⟨hl, h.isLine⟩
  isEnded := by
    cases lines with
    | nil => simp
    | cons l' lines => exact List.forall_mem_cons.mpr ⟨hended, h.isEnded⟩

/-- The bytes of a line before its line feed, or all of them if it has none: what is in it, and a
carriage return if they end with one. -/
theorem exists_content {l : List UInt8} (h : 10 ∉ l) :
    ∃ content ret, l = content ++ ret ∧
      (ret = [] ∧ content.getLast? ≠ some 13 ∨ ret = [13]) ∧
      FileLine.ofPiece l = ⟨content, ret⟩ ∧
      FileLine.ofPiece (l ++ [10]) = ⟨content, ret ++ [10]⟩ := by
  have hfeed : Source.lineBytes (l ++ [10]) = Text.dropFinal 13 l := by
    rw [Source.lineBytes, Text.dropFinal_concat]
  have hplain : Source.lineBytes l = Text.dropFinal 13 l := by
    rw [Source.lineBytes, Text.dropFinal_of_notMem h]
  by_cases hlast : l.getLast? = some 13
  · obtain ⟨content, rfl⟩ := List.getLast?_eq_some_iff.mp hlast
    rw [Text.dropFinal_concat] at hfeed hplain
    refine ⟨content, [13], rfl, Or.inr rfl, ?_, ?_⟩
    · simp [FileLine.ofPiece, hplain]
    · rw [FileLine.ofPiece, hfeed, List.append_assoc, List.drop_left]
  · have hdrop : Text.dropFinal 13 l = l := by simp [Text.dropFinal, hlast]
    rw [hdrop] at hfeed hplain
    refine ⟨l, [], by simp, Or.inl ⟨rfl, hlast⟩, ?_, ?_⟩
    · simp [FileLine.ofPiece, hplain]
    · simp [FileLine.ofPiece, hfeed]

theorem fileLines_of_notMem {l : List UInt8} (h : 10 ∉ l) :
    fileLines l = if l.isEmpty then [] else [.ofPiece l] := by
  rw [fileLines, Source.piecesOf_of_notMem h]
  split <;> rfl

theorem fileLines_cons_feed {l : List UInt8} (h : 10 ∉ l) (rest : List UInt8) :
    fileLines (l ++ 10 :: rest) = .ofPiece (l ++ [10]) :: fileLines rest := by
  rw [fileLines, Source.piecesOf_cons_feed h, List.map_cons, fileLines]

/-- **Any bytes consist of their lines.** -/
theorem areLines_fileLines (bytes : List UInt8) : AreLines bytes (fileLines bytes) := by
  induction bytes using Text.feed_induction (10 : UInt8) with
  | last l hl =>
    obtain ⟨content, ret, rfl, hret, hpiece, -⟩ := exists_content hl
    rw [fileLines_of_notMem hl, hpiece]
    have hcontent : 10 ∉ content := fun hmem => hl (List.mem_append_left ret hmem)
    split
    case isTrue hempty => exact ⟨by rw [List.isEmpty_iff.mp hempty]; rfl, by simp, by simp⟩
    case isFalse hempty =>
      refine ⟨by simp [FileLine.bytes], List.forall_mem_singleton.mpr ⟨hcontent, ?_, ?_⟩, by simp⟩
      · rcases hret with ⟨rfl, -⟩ | rfl
        · exact Or.inr (Or.inl ⟨rfl, by simpa using hempty⟩)
        · exact Or.inr (Or.inr rfl)
      · rcases hret with ⟨rfl, hlast⟩ | rfl
        · exact fun _ => hlast
        · exact fun hnot => absurd List.mem_cons_self hnot
  | line l rest hl ih =>
    obtain ⟨content, ret, rfl, hret, -, hpiece⟩ := exists_content hl
    rw [fileLines_cons_feed hl, hpiece]
    have hcontent : 10 ∉ content := fun hmem => hl (List.mem_append_left ret hmem)
    have hended : FileLine.IsEnded ⟨content, ret ++ [10]⟩ := by
      rcases hret with ⟨rfl, -⟩ | rfl
      · exact Or.inl rfl
      · exact Or.inr rfl
    have hline : FileLine.IsLine ⟨content, ret ++ [10]⟩ := by
      refine ⟨hcontent, Or.inl hended, fun hnot => ?_⟩
      rcases hret with ⟨rfl, hlast⟩ | rfl
      · exact hlast
      · exact absurd List.mem_cons_self hnot
    have hall := ih.cons hline hended
    rwa [FileLine.bytes, ← List.append_assoc, List.append_assoc _ [10], List.singleton_append]
      at hall

/-- The last line of a file loses its carriage return without a line feed; nothing follows a final
line feed. -/
example :
    fileLines [71, 48, 13, 10, 13] = [⟨[71, 48], [13, 10]⟩, ⟨[], [13]⟩] ∧
      fileLines [71, 13, 13, 10] = [⟨[71, 13], [13, 10]⟩] := by
  decide

/-- **Some bytes are UTF-8 exactly if all their lines are.** -/
theorem isUtf8_eq_all (bytes : List UInt8) :
    Text.isUtf8 bytes = (fileLines bytes).all fun l => Text.isUtf8 l.content := by
  have hcontent {content ret : List UInt8} (hret : ret = [] ∨ ret = [13]) :
      Text.isUtf8 (content ++ ret) = Text.isUtf8 content := by
    rcases hret with rfl | rfl
    · rw [List.append_nil]
    · rw [Text.isUtf8_append_ascii content (by decide) [], Text.isUtf8_nil, Bool.and_true]
  induction bytes using Text.feed_induction (10 : UInt8) with
  | last l hl =>
    obtain ⟨content, ret, rfl, hret, hpiece, -⟩ := exists_content hl
    rw [fileLines_of_notMem hl, hpiece]
    split
    case isTrue hempty => rw [List.isEmpty_iff.mp hempty]; rfl
    case isFalse => simp [hcontent (hret.imp_left And.left)]
  | line l rest hl ih =>
    obtain ⟨content, ret, rfl, hret, -, hpiece⟩ := exists_content hl
    rw [Text.isUtf8_append_ascii _ (by decide), hcontent (hret.imp_left And.left), ih,
      fileLines_cons_feed hl, hpiece, List.all_cons]

/-! ## 2. A visit, call by call -/

namespace Source

variable {σ : Type}

/-- A call of a visitor: the number of a line and its text. -/
abbrev Call := UInt32 × Text

/-- The calls for some lines, the first of them with the given number. -/
def calls (first : Nat) (lines : List FileLine) : List Call :=
  (lines.zipIdx first).map fun e => (UInt32.ofNat e.2, Text.decode e.1.content)

/-- The state after some calls. -/
def after (visitor : Visitor σ) (s : σ) (cs : List Call) : σ :=
  cs.foldl (fun s c => (visitor c.1 c.2 s).1) s

/-- None of the calls gives a reason to stop. -/
def Passes (visitor : Visitor σ) : σ → List Call → Prop
  | _, [] => True
  | s, c :: cs => (visitor c.1 c.2 s).2 = none ∧ Passes visitor (visitor c.1 c.2 s).1 cs

/-- The visitor that also notes down its calls. -/
def logged (visitor : Visitor σ) : Visitor (σ × List Call) := fun line text s =>
  (((visitor line text s.1).1, s.2 ++ [(line, text)]), (visitor line text s.1).2)

theorem length_calls (first : Nat) (lines : List FileLine) :
    (calls first lines).length = lines.length := by
  rw [calls, List.length_map, List.length_zipIdx]

/-- The call for the line of a piece. -/
theorem calls_cons (first : Nat) (piece : List UInt8) (pieces : List (List UInt8)) :
    calls first ((piece :: pieces).map FileLine.ofPiece) =
      (UInt32.ofNat first, lineText piece) :: calls (first + 1) (pieces.map FileLine.ofPiece) := by
  rw [List.map_cons, calls, List.zipIdx_cons, List.map_cons]
  rfl

theorem calls_append (first : Nat) (lines lines' : List FileLine) :
    calls first (lines ++ lines') =
      calls first lines ++ calls (first + lines.length) lines' := by
  rw [calls, List.zipIdx_append, List.map_append, calls, calls]

/-- The numbers of the calls are 1, 2 and so on, as words. -/
theorem map_fst_calls (lines : List FileLine) :
    (calls 1 lines).map Prod.fst = (List.range' 1 lines.length).map UInt32.ofNat := by
  rw [calls, List.map_map, ← List.zipIdx_map_snd 1 lines, List.map_map]
  rfl

/-- The numbers of fewer than 2^32 lines do not start over. -/
theorem map_toNat_calls {lines : List FileLine} (h : lines.length < 2 ^ 32) :
    (calls 1 lines).map (fun c => c.1.toNat) = List.range' 1 lines.length := by
  have hnumber : ∀ n ∈ List.range' 1 lines.length, (UInt32.ofNat n).toNat = n := by
    intro n hn
    have hbound := List.mem_range'_1.mp hn
    exact UInt32.toNat_ofNat_of_lt' (by simp only [UInt32.size]; omega)
  calc (calls 1 lines).map (fun c => c.1.toNat)
    _ = ((calls 1 lines).map Prod.fst).map UInt32.toNat := by
      rw [List.map_map]
      rfl
    _ = (List.range' 1 lines.length).map fun n => (UInt32.ofNat n).toNat := by
      rw [map_fst_calls, List.map_map]
      rfl
    _ = List.range' 1 lines.length := by
      rw [List.map_congr_left hnumber, List.map_id']

/-- What all pieces are counted to. -/
theorem foldl_count (stats : ReadStats) (pieces : List (List UInt8)) :
    pieces.foldl count stats =
      { stats with
        bytes := stats.bytes + pieces.flatten.length
        lines := stats.lines + pieces.length
        encoding := if pieces.all fun p => Text.isUtf8 (lineBytes p) then stats.encoding else .lossy
        lossyLines := stats.lossyLines + pieces.countP fun p => !Text.isUtf8 (lineBytes p) } := by
  induction pieces generalizing stats with
  | nil => rfl
  | cons piece rest ih =>
    rw [List.foldl_cons, ih, List.flatten_cons, List.length_append, List.length_cons,
      List.countP_cons, List.all_cons, count, Encoding.ofBytes]
    cases Text.isUtf8 (lineBytes piece) <;> simp <;> omega

/-- One call. -/
theorem visitPieces_cons (visitor : Visitor σ) (stats : ReadStats) (s : σ) (piece : List UInt8)
    (rest : List (List UInt8)) :
    visitPieces visitor stats s (piece :: rest) =
      let r := visitor (UInt32.ofNat (stats.lines + 1)) (lineText piece) s
      match r.2 with
      | some reason => (r.1, count stats piece, some reason)
      | none => visitPieces visitor (count stats piece) r.1 rest := by
  simp only [visitPieces, lines_count, lineText]
  obtain ⟨s', stop⟩ := visitor (UInt32.ofNat (stats.lines + 1)) (Text.decode (lineBytes piece)) s
  cases stop <;> rfl

/-- **A visit goes on behind the calls that pass**, with the state and the account after them. -/
theorem visitPieces_append {visitor : Visitor σ} (stats : ReadStats) {s : σ}
    {pieces : List (List UInt8)}
    (h : Passes visitor s (calls (stats.lines + 1) (pieces.map FileLine.ofPiece)))
    (rest : List (List UInt8)) :
    visitPieces visitor stats s (pieces ++ rest) =
      visitPieces visitor (pieces.foldl count stats)
        (after visitor s (calls (stats.lines + 1) (pieces.map FileLine.ofPiece))) rest := by
  induction pieces generalizing stats s with
  | nil => rfl
  | cons piece pieces ih =>
    rw [calls_cons] at h ⊢
    obtain ⟨hpass, hrest⟩ := h
    have hnext := @ih (count stats piece)
    rw [lines_count] at hnext
    simp only [List.cons_append, visitPieces_cons, hpass]
    exact hnext hrest

/-! ## 3. The calls of a visit -/

theorem passes_logged {visitor : Visitor σ} {s : σ} {log cs : List Call} :
    Passes (logged visitor) (s, log) cs ↔ Passes visitor s cs := by
  induction cs generalizing s log with
  | nil => exact Iff.rfl
  | cons c cs ih => exact and_congr Iff.rfl ih

theorem after_logged (visitor : Visitor σ) (s : σ) (log cs : List Call) :
    after (logged visitor) (s, log) cs = (after visitor s cs, log ++ cs) := by
  induction cs generalizing s log with
  | nil => rw [List.append_nil]; rfl
  | cons c cs ih =>
    have hstep : after (logged visitor) (s, log) (c :: cs) =
        after (logged visitor) ((visitor c.1 c.2 s).1, log ++ [c]) cs := rfl
    rw [hstep, ih, List.append_assoc]
    rfl

/-- **Noting down the calls changes nothing else.** -/
theorem visitPieces_logged (visitor : Visitor σ) (stats : ReadStats) (s : σ) (log : List Call)
    (pieces : List (List UInt8)) :
    visitPieces visitor stats s pieces =
      ((visitPieces (logged visitor) stats (s, log) pieces).1.1,
        (visitPieces (logged visitor) stats (s, log) pieces).2) := by
  induction pieces generalizing stats s log with
  | nil => rfl
  | cons piece rest ih =>
    rw [visitPieces_cons, visitPieces_cons]
    simp only [logged]
    split
    · rfl
    · exact ih _ _ _

theorem visit_logged (source : Source) (visitor : Visitor σ) (s : σ) (log : List Call) :
    source.visit visitor s =
      let r := source.visit (logged visitor) (s, log)
      (r.1.1, r.2) := by
  rw [visit, visit, visitPieces_logged visitor _ s log]
  obtain ⟨⟨s', log'⟩, stats, stop⟩ :=
    visitPieces (logged visitor) ⟨0, 0, .utf8, 0, source.size⟩ (s, log) source.pieces
  cases stop <;> cases source.failure <;> rfl

/-- No call gives a reason to stop, or there is a first one that does. -/
theorem passes_or_stops (visitor : Visitor σ) (s : σ) (cs : List Call) :
    Passes visitor s cs ∨ ∃ before c later reason, cs = before ++ c :: later ∧
      Passes visitor s before ∧ (visitor c.1 c.2 (after visitor s before)).2 = some reason := by
  induction cs generalizing s with
  | nil => exact Or.inl trivial
  | cons c cs ih =>
    cases hcall : (visitor c.1 c.2 s).2 with
    | some reason => exact Or.inr ⟨[], c, cs, reason, rfl, trivial, hcall⟩
    | none =>
      rcases ih (visitor c.1 c.2 s).1 with h | ⟨before, c', later, reason, rfl, hbefore, hstop⟩
      · exact Or.inl ⟨hcall, h⟩
      · exact Or.inr ⟨c :: before, c', later, reason, rfl, ⟨hcall, hbefore⟩, hstop⟩

/-- The pieces of some bytes are the bytes, cut. -/
theorem flatten_piecesOf (bytes : List UInt8) : (piecesOf bytes).flatten = bytes := by
  induction bytes using Text.feed_induction (10 : UInt8) with
  | last l hl =>
    rw [piecesOf_of_notMem hl]
    split
    case isTrue hempty => rw [List.isEmpty_iff.mp hempty, List.flatten_nil]
    case isFalse => rw [List.flatten_singleton]
  | line l rest hl ih =>
    rw [piecesOf_cons_feed hl, List.flatten_cons, ih, List.append_assoc, List.singleton_append]

/-- **What a visit comes to** where no call gives a reason to stop. -/
theorem visit_of_passes {visitor : Visitor σ} {s : σ} {bytes : List UInt8}
    (h : Passes visitor s (calls 1 (fileLines bytes))) :
    (ofBytes bytes).visit visitor s =
      (after visitor s (calls 1 (fileLines bytes)),
        .ok ⟨bytes.length, (fileLines bytes).length, Encoding.ofBytes bytes,
          (fileLines bytes).countP fun l => !Text.isUtf8 l.content, bytes.length⟩) := by
  have hpieces := visitPieces_append ⟨0, 0, .utf8, 0, bytes.length⟩ h []
  rw [List.append_nil, foldl_count, flatten_piecesOf] at hpieces
  rw [Encoding.ofBytes, isUtf8_eq_all]
  simp only [visit, ofBytes, hpieces, visitPieces, fileLines, List.length_map, List.countP_map,
    List.all_map, Function.comp_def, FileLine.ofPiece, Nat.zero_add]

/-- The piece of a call, among the pieces before it and behind it. -/
theorem exists_piece_of_calls {pieces : List (List UInt8)} {before later : List Call} {c : Call}
    (h : calls 1 (pieces.map FileLine.ofPiece) = before ++ c :: later) :
    ∃ passed piece rest, pieces = passed ++ piece :: rest ∧
      before = calls 1 (passed.map FileLine.ofPiece) ∧
      c = (UInt32.ofNat (passed.length + 1), lineText piece) := by
  have hlength : before.length < pieces.length := by
    have heq := congrArg List.length h
    rw [length_calls, List.length_map, List.length_append, List.length_cons] at heq
    omega
  have hsplit : pieces = pieces.take before.length ++
      pieces[before.length] :: pieces.drop (before.length + 1) := by
    rw [List.getElem_cons_drop, List.take_append_drop]
  have htaken : (pieces.take before.length).length = before.length :=
    List.length_take_of_le (Nat.le_of_lt hlength)
  refine ⟨_, _, _, hsplit, ?_⟩
  rw [hsplit, List.map_append, calls_append, calls_cons, List.length_map] at h
  obtain ⟨hbefore, hrest⟩ := List.append_inj h (by rw [length_calls, List.length_map, htaken])
  rw [Nat.add_comm] at hrest
  exact ⟨hbefore.symm, (List.cons.inj hrest).1.symm⟩

/-- **What a visit comes to** where a call does. -/
theorem visit_of_stops {visitor : Visitor σ} {s : σ} {bytes : List UInt8}
    {before later : List Call} {c : Call} {reason : String}
    (hcalls : calls 1 (fileLines bytes) = before ++ c :: later) (h : Passes visitor s before)
    (hstop : (visitor c.1 c.2 (after visitor s before)).2 = some reason) :
    (ofBytes bytes).visit visitor s = (after visitor s (before ++ [c]), .error reason) := by
  obtain ⟨passed, piece, rest, hpieces, rfl, rfl⟩ := exists_piece_of_calls hcalls
  have hvisit := visitPieces_append ⟨0, 0, .utf8, 0, bytes.length⟩ h (piece :: rest)
  rw [foldl_count, visitPieces_cons] at hvisit
  simp only [Nat.zero_add, hstop] at hvisit
  rw [visit, ofBytes, hpieces, hvisit, after, after, List.foldl_append]
  rfl

end Source

/-- **A line is lossy exactly if the bytes are**, all together. -/
theorem countP_lossy_pos_iff (bytes : List UInt8) :
    (0 < (fileLines bytes).countP fun l => !Text.isUtf8 l.content) ↔
      Encoding.ofBytes bytes = .lossy := by
  rw [Encoding.ofBytes, isUtf8_eq_all bytes, List.countP_pos_iff]
  simp

/-- **A visit reads the lines of a file**, one call for each.

Any bytes consist of lines, and the visitor is called for them in order: with the number of the
line, a word that starts over only behind 2^32 - 1 lines, and its text, without its ending and with
U+FFFD for what is no UTF-8.  If no call gives a reason to stop, these are all calls, and the
account is of all bytes, all lines and the lines that are no UTF-8.  Otherwise the first call that
gives a reason is the last one, and the reason is the outcome.  The bytes were taken as lossy
exactly if they are no UTF-8, all together. -/
theorem visit_reads_lines {σ : Type} (visitor : Source.Visitor σ) (s : σ) (bytes : List UInt8) :
    let source := Source.ofBytes bytes
    ∃ lines, AreLines bytes lines ∧
      (Source.calls 1 lines).map Prod.fst = (List.range' 1 lines.length).map UInt32.ofNat ∧
      (lines.length < 2 ^ 32 →
        (Source.calls 1 lines).map (fun c => c.1.toNat) = List.range' 1 lines.length) ∧
      (source.visit visitor s =
        let r := source.visit (Source.logged visitor) (s, [])
        (r.1.1, r.2)) ∧
      (Source.Passes visitor s (Source.calls 1 lines) →
        source.visit (Source.logged visitor) (s, []) =
          ((Source.after visitor s (Source.calls 1 lines), Source.calls 1 lines),
            .ok ⟨bytes.length, lines.length, Encoding.ofBytes bytes,
              lines.countP fun l => !Text.isUtf8 l.content, bytes.length⟩)) ∧
      (∀ before c later reason, Source.calls 1 lines = before ++ c :: later →
        Source.Passes visitor s before →
        (visitor c.1 c.2 (Source.after visitor s before)).2 = some reason →
        source.visit (Source.logged visitor) (s, []) =
          ((Source.after visitor s (before ++ [c]), before ++ [c]), .error reason)) ∧
      ∀ stats, (source.visit visitor s).2 = .ok stats →
        (stats.encoding = .lossy ↔ 0 < stats.lossyLines) ∧
          (0 < stats.lossyLines ↔ Encoding.ofBytes bytes = .lossy) := by
  intro source
  refine ⟨fileLines bytes, areLines_fileLines bytes, Source.map_fst_calls _, Source.map_toNat_calls,
    ?_, fun h => ?_, fun before c later reason hcalls h hstop => ?_, fun stats hstats => ?_⟩
  · exact source.visit_logged visitor s []
  · rw [Source.visit_of_passes (Source.passes_logged.mpr h), Source.after_logged, List.nil_append]
  · have hstop' : (Source.logged visitor c.1 c.2
        (Source.after (Source.logged visitor) (s, []) before)).2 = some reason := by
      rw [Source.after_logged]
      exact hstop
    rw [Source.visit_of_stops hcalls (Source.passes_logged.mpr h) hstop', Source.after_logged,
      List.nil_append]
  · rcases Source.passes_or_stops visitor s (Source.calls 1 (fileLines bytes)) with
      h | ⟨before, c, later, reason, hcalls, h, hstop⟩
    · rw [Source.visit_of_passes h] at hstats
      obtain rfl := Except.ok.inj hstats
      exact ⟨(countP_lossy_pos_iff bytes).symm, countP_lossy_pos_iff bytes⟩
    · rw [Source.visit_of_stops hcalls h hstop] at hstats
      cases hstats

end Motion
