/-
# Reading TOML strings that were written

The writer picks one of four kinds, and each is read back (`readString?_writeString`).

* The basic kinds can show every text, so for them it does not matter why they were picked.  Their
  readers treat escapes alike (`ReadsEscapes`), and the written form of a character other than a
  quote gives that character to any reader that does (`read_writeChar`).
* The literal kinds show a text as it is.  What they need is in the reasons for which they are
  picked: no control characters, and no row of apostrophes that would close the string.

Over lines, a reader that meets a mark has to see what follows.  Three marks in a row close the
string, and up to two more behind them still belong to it.  So where some marks are held back, all
of them are read one by one if something else follows (`ClosesAt.read_marks`), and all of them are
kept if the string ends (`ClosesAt.read_closing`); there are never more than two, and this is the
invariant that carries both kinds (`readBasicLines?_writeChars`, `readLiteralLines?_append`).
-/
import Motion.Proofs.Text.Digits
import Motion.Toml.Quoted

namespace Motion.Toml

open Text

/-! ## 1. Escapes -/

/-- A reader of strings that knows the escapes, and takes any other character as it is. -/
structure ReadsEscapes (read? : Text → Option (Text × Text)) : Prop where
  letter {e c : Char} (h : unescape? e = some c) (t : Text) :
    read? ('\\' :: e :: t) = before c (read? t)
  code (a b c d : Char) (t : Text) :
    read? ('\\' :: 'u' :: a :: b :: c :: d :: t) =
      (codePoint? [a, b, c, d]).bind fun c => before c (read? t)
  plain {c : Char} (h : isPlain c = true) (hquote : c ≠ '"') (hslash : c ≠ '\\') (t : Text) :
    read? (c :: t) = before c (read? t)

theorem ne_of_unescape? {e c d : Char} (h : unescape? e = some c) (hd : unescape? d = none) :
    e ≠ d := by
  rintro rfl
  cases h.symm.trans hd

theorem readsEscapes_readBasic : ReadsEscapes readBasic? where
  letter {e c} h t := by
    rw [readBasic?]
    · rw [h]
      rfl
    · exact fun _ _ _ _ _ he => absurd he (ne_of_unescape? h (by decide))
    · exact fun _ _ _ _ _ _ _ _ _ he => absurd he (ne_of_unescape? h (by decide))
  code a b c d t := by
    rw [readBasic?]
    rfl
  plain {c} h hquote hslash t := by
    rw [readBasic?, if_pos h]
    · exact hquote
    all_goals
      intros
      contradiction

/-- The escaped form of a character, in upper case. -/
theorem codePoint?_hexPadded {c : Char} (h : c.toNat < 0x10000) :
    ∃ d₁ d₂ d₃ d₄, (hexPadded 4 c.toNat).map Char.toUpper = [d₁, d₂, d₃, d₄] ∧
      codePoint? [d₁, d₂, d₃, d₄] = some c := by
  have hread := readHex?_map_hexPadded Char.toUpper hexValue?_toUpper_digitChar 4 c.toNat
  have hlength : ((hexPadded 4 c.toNat).map Char.toUpper).length = 4 := by
    rw [List.length_map, length_hexPadded_four h]
  match hdigits : (hexPadded 4 c.toNat).map Char.toUpper, hlength with
  | [d₁, d₂, d₃, d₄], _ =>
    rw [hdigits] at hread
    have hvalid : c.toNat.isValidChar := c.valid
    refine ⟨d₁, d₂, d₃, d₄, rfl, ?_⟩
    rw [codePoint?, hread, Option.bind_some, if_pos hvalid, Char.ofNat_toNat]

/-- What is written as itself is plain. -/
theorem isPlain_of_not_needsCode {c : Char} (hfeed : c ≠ '\n') (hcode : needsCode c = false) :
    isPlain c = true := by
  by_cases htab : c = '\t'
  · rw [htab]
    rfl
  · have hsmall : ¬ c.toNat < 0x20 := by
      intro hlt
      simp [needsCode, hlt, htab, hfeed] at hcode
    have hdelete : c.toNat ≠ 0x7F := by
      intro heq
      simp [needsCode, heq] at hcode
    simp only [isPlain, Bool.or_eq_true, Bool.and_eq_true, decide_eq_true_eq, bne_iff_ne]
    exact Or.inr ⟨Nat.le_of_not_lt hsmall, hdelete⟩

/-- **The written form of a character** is read as that character.  Over lines, a line feed stands
for itself. -/
theorem ReadsEscapes.read_writeChar {read? : Text → Option (Text × Text)} (h : ReadsEscapes read?)
    (overLines : Bool)
    (hfeed : overLines = true → ∀ t, read? ('\n' :: t) = before '\n' (read? t)) {c : Char}
    (hquote : c ≠ '"') (t : Text) :
    read? (writeChar overLines c ++ t) = before c (read? t) := by
  unfold writeChar
  split
  case isTrue hline =>
    simp only [Bool.and_eq_true, beq_iff_eq] at hline
    rw [hline.1]
    exact hfeed hline.2 t
  case isFalse hline =>
    cases hletter : controlLetter? c with
    | some letter =>
      have hall : ∀ entry ∈ controls, unescape? entry.1 = some entry.2 := by decide
      exact h.letter (hall _ (mem_controls_of_controlLetter? hletter)) t
    | none =>
      simp only
      split
      case isTrue hslash =>
        rw [beq_iff_eq.mp hslash]
        exact h.letter rfl t
      case isFalse hslash =>
        split
        case isTrue hcode =>
          have hsmall : c.toNat < 0x10000 := by
            simp only [needsCode, Bool.or_eq_true, Bool.and_eq_true, decide_eq_true_eq,
              beq_iff_eq] at hcode
            omega
          obtain ⟨d₁, d₂, d₃, d₄, hdigits, hpoint⟩ := codePoint?_hexPadded hsmall
          rw [writeCode, hdigits]
          exact (h.code d₁ d₂ d₃ d₄ t).trans (by rw [hpoint]; rfl)
        case isFalse hcode =>
          have hne : c ≠ '\n' := by
            rintro rfl
            cases hletter
          exact h.plain (isPlain_of_not_needsCode hne (Bool.eq_false_iff.mpr hcode)) hquote
            (fun hc => hslash (beq_iff_eq.mpr hc)) t

theorem readBasic?_writeChars (run : Nat) (t rest : Text) :
    readBasic? (writeChars false run t ++ '"' :: rest) = some (t, rest) := by
  induction t generalizing run with
  | nil => rfl
  | cons c t ih =>
    rw [writeChars]
    split
    case isTrue hquote =>
      rw [Bool.false_and, if_neg Bool.false_ne_true, beq_iff_eq.mp hquote]
      rw [List.cons_append, List.cons_append, readsEscapes_readBasic.letter rfl, ih]
      rfl
    case isFalse hquote =>
      have hne : c ≠ '"' := fun hc => hquote (beq_iff_eq.mpr hc)
      rw [List.append_assoc,
        readsEscapes_readBasic.read_writeChar false (fun h => absurd h Bool.false_ne_true) hne, ih]
      rfl

theorem readLiteral?_append {t : Text} (h : ∀ c ∈ t, isPlain c = true ∧ c ≠ '\'') (rest : Text) :
    readLiteral? (t ++ '\'' :: rest) = some (t, rest) := by
  induction t with
  | nil => rfl
  | cons c t ih =>
    obtain ⟨hplain, hmark⟩ := h c List.mem_cons_self
    rw [List.cons_append, readLiteral?, if_pos hplain,
      ih fun d hd => h d (List.mem_cons_of_mem c hd)]
    · rfl
    · exact hmark

/-! ## 2. Marks in a row -/

/-- A reader of strings over lines: three marks close the string, and fewer stand for themselves. -/
structure ClosesAt (mark : Char) (read? : Text → Option (Text × Text)) : Prop where
  close (rest : Text) : read? (mark :: mark :: mark :: rest) = some (closing mark rest)
  keep {t : Text} (h : ¬ [mark, mark] <+: t) : read? (mark :: t) = before mark (read? t)

section Marks

variable {mark : Char} {count : Nat}

theorem beq_eq_false_of_head? {a : Char} {rest : Text} (h : (a :: rest).head? ≠ some mark) :
    (a == mark) = false := beq_eq_false_iff_ne.mpr fun ha => h (congrArg some ha)

/-- Up to two marks behind the closing ones belong to the string. -/
theorem closing_marks {rest : Text} (hcount : count ≤ 2) (h : rest.head? ≠ some mark) :
    closing mark (List.replicate count mark ++ rest) = (List.replicate count mark, rest) := by
  match count, rest with
  | 0, [] => rfl
  | 0, [a] => simp [closing, beq_eq_false_of_head? h]
  | 0, a :: b :: rest => simp [closing, beq_eq_false_of_head? h]
  | 1, [] => simp [closing]
  | 1, a :: rest => simp [closing, beq_eq_false_of_head? h]
  | 2, rest => simp [closing]

variable {read? : Text → Option (Text × Text)}

/-- **Marks before the closing ones** are kept. -/
theorem ClosesAt.read_closing (h : ClosesAt mark read?) {rest : Text} (hcount : count ≤ 2)
    (hrest : rest.head? ≠ some mark) :
    read? (List.replicate count mark ++ mark :: mark :: mark :: rest) =
      some (List.replicate count mark, rest) := by
  have hmarks : List.replicate count mark ++ mark :: mark :: mark :: rest =
      mark :: mark :: mark :: (List.replicate count mark ++ rest) := by
    match count with
    | 0 => rfl
    | 1 => rfl
    | 2 => rfl
  rw [hmarks, h.close, closing_marks hcount hrest]

/-- **Marks before something else** are read off one by one. -/
theorem ClosesAt.read_marks (h : ClosesAt mark read?) {t : Text} (hcount : count ≤ 2)
    (ht : t.head? ≠ some mark) :
    read? (List.replicate count mark ++ t) =
      (read? t).map fun r => (List.replicate count mark ++ r.1, r.2) := by
  have hlast : ¬ [mark, mark] <+: t := by
    rintro ⟨u, rfl⟩
    exact ht rfl
  match count with
  | 0 => simp
  | 1 => exact h.keep hlast
  | 2 =>
    have hfirst : ¬ [mark, mark] <+: mark :: t := by
      rintro ⟨u, hu⟩
      exact ht ((List.cons.inj hu).2 ▸ rfl)
    exact (h.keep hfirst).trans (by rw [h.keep hlast, before, before, Option.map_map]; rfl)

end Marks

/-! ## 3. Strings over lines -/

theorem readsEscapes_readBasicLines : ReadsEscapes (readBasicLines? .inText) where
  letter {e c} h t := by
    rw [readBasicLines?]
    · rw [h]
      rfl
    -- no other escape starts with the same letter
    all_goals
      simp [ne_of_unescape? h (d := 'u') (by decide), ne_of_unescape? h (d := 'U') (by decide),
        ne_of_unescape? h (d := ' ') (by decide), ne_of_unescape? h (d := '\t') (by decide),
        ne_of_unescape? h (d := '\n') (by decide), ne_of_unescape? h (d := '\r') (by decide)]
  code a b c d t := by
    rw [readBasicLines?]
    · rfl
    all_goals simp
  plain {c} h hquote hslash t := by
    have hfeed : c ≠ '\n' := ne_of_holds h (by decide)
    have hreturn : c ≠ '\r' := ne_of_holds h (by decide)
    rw [readBasicLines?]
    · rw [if_pos h]
    all_goals simp [hquote, hslash, hfeed, hreturn]

theorem closesAt_readBasicLines : ClosesAt '"' (readBasicLines? .inText) where
  close rest := by
    rw [readBasicLines?]
    exact fun h => nomatch h
  keep {t} h := by
    rw [readBasicLines?]
    · rfl
    all_goals simp
    exact fun rest ht => h ⟨rest, ht.symm⟩

/-- The written form of a character starts with no quote, and on its line. -/
theorem exists_writeChar_eq_cons (overLines : Bool) {c : Char} (h : c ≠ '"') :
    ∃ d u, writeChar overLines c = d :: u ∧ d ≠ '"' ∧ (c ≠ '\n' → isPlain d = true) := by
  unfold writeChar
  split
  case isTrue hline =>
    refine ⟨'\n', [], rfl, by decide, fun hc => absurd ?_ hc⟩
    exact beq_iff_eq.mp (Bool.and_eq_true_iff.mp hline).1
  case isFalse =>
    split
    · exact ⟨'\\', _, rfl, by decide, fun _ => rfl⟩
    · split
      · exact ⟨'\\', _, rfl, by decide, fun _ => rfl⟩
      · split
        · exact ⟨'\\', _, rfl, by decide, fun _ => rfl⟩
        case isFalse hcode =>
          exact ⟨c, [], rfl, h, fun hc => isPlain_of_not_needsCode hc (Bool.eq_false_iff.mpr hcode)⟩

/-- **A text between threefold quotes**, of which some quotes are held back. -/
theorem readBasicLines?_writeChars {count : Nat} {rest : Text} (hcount : count ≤ 2) (t : Text)
    (hrest : rest.head? ≠ some '"') :
    readBasicLines? .inText (List.replicate count '"' ++
        (writeChars true count t ++ '"' :: '"' :: '"' :: rest)) =
      some (List.replicate count '"' ++ t, rest) := by
  induction t generalizing count with
  | nil =>
    rw [writeChars, List.nil_append, List.append_nil]
    exact closesAt_readBasicLines.read_closing hcount hrest
  | cons c t ih =>
    have hzero := ih (Nat.zero_le 2)
    rw [List.replicate_zero, List.nil_append, List.nil_append] at hzero
    rw [writeChars]
    split
    case isTrue hquote =>
      obtain rfl : c = '"' := beq_iff_eq.mp hquote
      by_cases hlt : count < 2
      · have hmore := ih (Nat.succ_le_of_lt hlt)
        rw [List.replicate_succ', List.append_assoc, List.append_assoc] at hmore
        simpa [hlt] using hmore
      · rw [Bool.true_and, if_neg (by simpa using hlt), List.cons_append, List.cons_append,
          closesAt_readBasicLines.read_marks hcount (by simp),
          readsEscapes_readBasicLines.letter rfl, hzero]
        rfl
    case isFalse hquote =>
      have hne : c ≠ '"' := fun hc => hquote (beq_iff_eq.mpr hc)
      have hfeed (t : Text) : readBasicLines? .inText ('\n' :: t) =
          before '\n' (readBasicLines? .inText t) := by
        rw [readBasicLines?] <;> simp
      obtain ⟨d, u, hform, hd, -⟩ := exists_writeChar_eq_cons true hne
      rw [List.append_assoc, closesAt_readBasicLines.read_marks hcount (by simpa [hform] using hd),
        readsEscapes_readBasicLines.read_writeChar true (fun _ => hfeed) hne, hzero]
      rfl

theorem closesAt_readLiteralLines : ClosesAt '\'' readLiteralLines? where
  close rest := by rw [readLiteralLines?]
  keep {t} h := by
    rw [readLiteralLines?]
    · rfl
    all_goals simp
    exact fun rest ht => h ⟨rest, ht.symm⟩

/-- **A text between threefold apostrophes**, of which some apostrophes are held back. -/
theorem readLiteralLines?_append {count : Nat} {t rest : Text} (hrun : longestRun '\'' count t ≤ 2)
    (hplain : ∀ c ∈ t, c = '\n' ∨ isPlain c = true) (hrest : rest.head? ≠ some '\'') :
    readLiteralLines? (List.replicate count '\'' ++ (t ++ '\'' :: '\'' :: '\'' :: rest)) =
      some (List.replicate count '\'' ++ t, rest) := by
  induction t generalizing count with
  | nil =>
    rw [List.nil_append, List.append_nil]
    exact closesAt_readLiteralLines.read_closing hrun hrest
  | cons c t ih =>
    have hothers : ∀ c ∈ t, c = '\n' ∨ isPlain c = true :=
      fun d hd => hplain d (List.mem_cons_of_mem c hd)
    rw [longestRun] at hrun
    split at hrun
    case isTrue hmark =>
      obtain rfl : c = '\'' := beq_iff_eq.mp hmark
      have hmore := ih hrun hothers
      rw [List.replicate_succ', List.append_assoc, List.append_assoc] at hmore
      simpa using hmore
    case isFalse hmark =>
      have hne : c ≠ '\'' := fun hc => hmark (beq_iff_eq.mpr hc)
      have hzero := ih (le_of_max_le_right hrun) hothers
      rw [List.replicate_zero, List.nil_append, List.nil_append] at hzero
      have hstep : readLiteralLines? (c :: (t ++ '\'' :: '\'' :: '\'' :: rest)) =
          before c (readLiteralLines? (t ++ '\'' :: '\'' :: '\'' :: rest)) := by
        rcases hplain c List.mem_cons_self with rfl | hc
        · rw [readLiteralLines?]
        · have hfeed : c ≠ '\n' := ne_of_holds hc (by decide)
          have hreturn : c ≠ '\r' := ne_of_holds hc (by decide)
          rw [readLiteralLines?]
          · rw [if_pos hc]
          all_goals simp [hne, hfeed, hreturn]
      rw [List.cons_append, closesAt_readLiteralLines.read_marks (le_of_max_le_left hrun)
        (by simpa using hne), hstep, hzero]
      rfl

/-! ## 4. The reasons for the literal kinds -/

theorem longestRun_pos {mark : Char} {run : Nat} {t : Text} (h : mark ∈ t ∨ 0 < run) :
    0 < longestRun mark run t := by
  induction t generalizing run with
  | nil => simpa [longestRun] using h
  | cons c t ih =>
    rw [longestRun]
    split
    case isTrue => exact ih (Or.inr (Nat.succ_pos run))
    case isFalse hc =>
      rcases h with h | h
      · rcases List.mem_cons.mp h with rfl | h
        · exact absurd (beq_self_eq_true mark) hc
        · exact lt_max_of_lt_right (ih (Or.inl h))
      · exact lt_max_of_lt_left h

/-- What a literal string on one line shows is plain and no apostrophe. -/
theorem plain_of_literal {t : Text} (h : Style.of t = .literal) :
    ∀ c ∈ t, isPlain c = true ∧ c ≠ '\'' := by
  unfold Style.of at h
  simp only at h
  split_ifs at h with _ hliteral
  simp only [Bool.and_eq_true, Bool.not_eq_true', beq_iff_eq, List.any_eq_false] at hliteral
  obtain ⟨⟨hcode, hrun⟩, hfeed⟩ := hliteral
  intro c hc
  refine ⟨isPlain_of_not_needsCode ?_ (Bool.eq_false_iff.mpr (hcode c hc)), ?_⟩
  · rintro rfl
    exact absurd (List.contains_iff_mem.mpr hc) (Bool.eq_false_iff.mp hfeed)
  · rintro rfl
    exact absurd hrun (Nat.pos_iff_ne_zero.mp (longestRun_pos (Or.inl hc)))

/-- What a literal string over lines shows is plain but for its line feeds, and has no three
apostrophes in a row. -/
theorem plain_of_literalLines {t : Text} (h : Style.of t = .literalLines) :
    longestRun '\'' 0 t ≤ 2 ∧ ∀ c ∈ t, c = '\n' ∨ isPlain c = true := by
  unfold Style.of at h
  simp only at h
  split_ifs at h with _ _ _ hliteral
  simp only [Bool.and_eq_true, Bool.not_eq_true', decide_eq_true_eq, List.any_eq_false] at hliteral
  refine ⟨hliteral.2, fun c hc => or_iff_not_imp_left.mpr fun hne => ?_⟩
  exact isPlain_of_not_needsCode hne (Bool.eq_false_iff.mpr (hliteral.1 c hc))

/-! ## 5. Strings of all kinds -/

theorem readString?_quote {t : Text} (h : ¬ ['"', '"'] <+: t) :
    readString? ('"' :: t) = readBasic? t := by
  rw [readString?]
  · rfl
  all_goals simp
  exact fun rest ht => h ⟨rest, ht.symm⟩

theorem readString?_apostrophe {t : Text} (h : ¬ ['\'', '\''] <+: t) :
    readString? ('\'' :: t) = readLiteral? t := by
  rw [readString?]
  · rfl
  all_goals simp
  exact fun rest ht => h ⟨rest, ht.symm⟩

/-- The line feed behind the opening marks is dropped, and nothing else is. -/
theorem dropLineEnd_opening {t u : Text} {c : Char} (h : '\n' ∉ t → isPlain c = true) :
    dropLineEnd (opening t ++ c :: u) = c :: u := by
  by_cases hfeed : '\n' ∈ t
  · rw [opening, if_pos (List.contains_iff_mem.mpr hfeed)]
    rfl
  · have hne {d : Char} (hd : isPlain d = false) : c ≠ d := ne_of_holds (h hfeed) hd
    rw [opening, if_neg (fun hc => hfeed (List.contains_iff_mem.mp hc)), List.nil_append,
      dropLineEnd]
    · exact fun rest ht => hne (by decide) (List.cons.inj ht).1
    · exact fun rest ht => hne (by decide) (List.cons.inj ht).1

/-- What is written of a text starts on its line, and on one line with no quote. -/
theorem exists_writeChars_eq_cons (overLines : Bool) (c : Char) (t : Text) :
    ∃ d u, writeChars overLines 0 (c :: t) = d :: u ∧ (overLines = false → d ≠ '"') ∧
      (c ≠ '\n' → isPlain d = true) := by
  rw [writeChars]
  split
  case isTrue hquote =>
    cases overLines with
    | true => exact ⟨'"', _, rfl, fun h => absurd h.symm Bool.false_ne_true, fun _ => rfl⟩
    | false => exact ⟨'\\', _, rfl, fun _ => by decide, fun _ => rfl⟩
  case isFalse hquote =>
    obtain ⟨d, u, hform, hd, hplain⟩ :=
      exists_writeChar_eq_cons overLines fun hc => hquote (beq_iff_eq.mpr hc)
    exact ⟨d, _, by rw [hform, List.cons_append], fun _ => hd, hplain⟩

/-- **A string is read as it was written**, whatever it holds, if no mark follows it. -/
theorem readString?_writeString (t : Text) {rest : Text}
    (hrest : ∀ c ∈ rest.head?, c ≠ '"' ∧ c ≠ '\'') :
    readString? (writeString t ++ rest) = some (t, rest) := by
  have hquote : rest.head? ≠ some '"' := fun h => (hrest _ h).1 rfl
  have hapostrophe : rest.head? ≠ some '\'' := fun h => (hrest _ h).2 rfl
  unfold writeString
  cases hstyle : Style.of t with
  | basic =>
    have hshort : ¬ ['"', '"'] <+: writeChars false 0 t ++ '"' :: rest := by
      rintro ⟨u, hu⟩
      cases t with
      | nil => exact hquote ((List.cons.inj hu).2 ▸ rfl)
      | cons c t =>
        obtain ⟨d, v, hform, hd, -⟩ := exists_writeChars_eq_cons false c t
        rw [hform] at hu
        exact hd rfl (List.cons.inj hu).1.symm
    simp only [List.cons_append, List.append_assoc, List.nil_append]
    rw [readString?_quote hshort, readBasic?_writeChars]
  | literal =>
    have hplain := plain_of_literal hstyle
    have hshort : ¬ ['\'', '\''] <+: t ++ '\'' :: rest := by
      rintro ⟨u, hu⟩
      cases t with
      | nil => exact hapostrophe ((List.cons.inj hu).2 ▸ rfl)
      | cons c t => exact (hplain c List.mem_cons_self).2 (List.cons.inj hu).1.symm
    simp only [List.cons_append, List.append_assoc, List.nil_append]
    rw [readString?_apostrophe hshort, readLiteral?_append hplain]
  | basicLines =>
    have hopening : dropLineEnd (opening t ++ (writeChars true 0 t ++ '"' :: '"' :: '"' :: rest)) =
        writeChars true 0 t ++ '"' :: '"' :: '"' :: rest := by
      cases t with
      | nil => rfl
      | cons c t =>
        obtain ⟨d, v, hform, -, hd⟩ := exists_writeChars_eq_cons true c t
        rw [hform]
        exact dropLineEnd_opening fun hfeed => hd fun hc => hfeed (hc ▸ List.mem_cons_self)
    have hread := readBasicLines?_writeChars (Nat.zero_le 2) t hquote
    have hform : "\"\"\"".toList ++ opening t ++ writeChars true 0 t ++ "\"\"\"".toList ++ rest =
        '"' :: '"' :: '"' :: (opening t ++ (writeChars true 0 t ++ '"' :: '"' :: '"' :: rest)) := by
      simp
    rw [hform, readString?, hopening]
    exact hread
  | literalLines =>
    obtain ⟨hrun, hplain⟩ := plain_of_literalLines hstyle
    have hopening : dropLineEnd (opening t ++ (t ++ '\'' :: '\'' :: '\'' :: rest)) =
        t ++ '\'' :: '\'' :: '\'' :: rest := by
      cases t with
      | nil => rfl
      | cons c t =>
        refine dropLineEnd_opening fun hfeed => ?_
        exact (hplain c List.mem_cons_self).resolve_left fun hc => hfeed (hc ▸ List.mem_cons_self)
    have hread := readLiteralLines?_append hrun hplain hapostrophe
    have hform : "\x27\x27\x27".toList ++ opening t ++ t ++ "\x27\x27\x27".toList ++ rest =
        '\'' :: '\'' :: '\'' :: (opening t ++ (t ++ '\'' :: '\'' :: '\'' :: rest)) := by
      simp
    rw [hform, readString?, hopening]
    exact hread

end Motion.Toml
