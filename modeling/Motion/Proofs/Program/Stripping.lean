/-
# What is left of a raw line

The code of a line is found by cutting and trimming: first the comment is cut off, and then the
blanks are dropped at both ends of what is left.  The comment character is not checked at this
point.  It may be a letter of some word, a blank, or a character that takes several bytes.

What is found can be said without any of these steps.  A line is blanks, code, blanks, and a
comment, where the code is not empty and has no blanks at its ends, there is no comment character
in front of the comment, and the comment starts with one or is empty (`IsCode`).  A line is this in
one way at most, and in no way only if nothing but blanks stands in front of the comment.

* **Trimming.**  A trimmed text is found again among blanks (`trim_around`), and trimming leaves
  blanks on both sides of a trimmed text (`exists_trim`, `isTrimmed_trim`).
* **Cutting.**  There is one cut (`Cuts.takeWhile_eq`, `cuts_takeWhile`).  It may be made among the
  bytes of the line as well, because it is never inside a character (`Cuts.decode?_take`).
-/
import Mathlib.Data.List.TakeWhile
import Motion.Proofs.Program.Loading
import Motion.Proofs.Text.Encoding
import Motion.Proofs.Text.Lines
import Motion.Proofs.Text.Words

namespace Motion

/-! ## 1. Trimming -/

namespace Text

/-- The text has something in it, and no blanks at its ends. -/
structure IsTrimmed (t : Text) : Prop where
  ne_nil : t ≠ []
  head : ∀ c ∈ t.head?, isBlank c = false
  last : ∀ c ∈ t.getLast?, isBlank c = false

variable {t code before after : Text}

theorem dropWhile_isBlank_of_head? (h : ∀ c ∈ t.head?, isBlank c = false) :
    t.dropWhile isBlank = t := by
  cases t with
  | nil => rfl
  | cons c t => rw [List.dropWhile_cons, h c rfl, if_neg Bool.false_ne_true]

/-- There is nothing to trim. -/
theorem IsTrimmed.trim_eq (h : IsTrimmed t) : trim t = t := by
  have hlast : ∀ c ∈ t.reverse.head?, isBlank c = false := by
    rw [List.head?_reverse]
    exact h.last
  rw [trim, trimStart, dropWhile_isBlank_of_head? h.head, trimEnd,
    dropWhile_isBlank_of_head? hlast, List.reverse_reverse]

/-- **Trimming finds the code** among blanks. -/
theorem trim_around (hbefore : ∀ c ∈ before, isBlank c) (hafter : ∀ c ∈ after, isBlank c)
    (h : IsTrimmed code) : trim (before ++ code ++ after) = code := by
  rw [trim_append hafter, trim, trimStart, List.dropWhile_append_of_pos hbefore]
  exact h.trim_eq

/-- A text is its trimmed form with blanks around it. -/
theorem exists_trim (t : Text) :
    ∃ before after : Text, (∀ c ∈ before, isBlank c) ∧ (∀ c ∈ after, isBlank c) ∧
      t = before ++ trim t ++ after := by
  obtain ⟨after, hafter, hend⟩ := exists_trimEnd_append (trimStart t)
  refine ⟨t.takeWhile isBlank, after, fun c hc => List.mem_takeWhile_imp hc, hafter, ?_⟩
  calc t = t.takeWhile isBlank ++ trimStart t := List.takeWhile_append_dropWhile.symm
    _ = t.takeWhile isBlank ++ (trim t ++ after) := by rw [trim, hend]
    _ = t.takeWhile isBlank ++ trim t ++ after := (List.append_assoc ..).symm

/-- Trimming leaves a trimmed text, or nothing. -/
theorem isTrimmed_trim (h : trim t ≠ []) : IsTrimmed (trim t) := by
  refine ⟨h, ?_, ?_⟩
  · -- what is dropped at the end does not change the first character
    obtain ⟨after, -, hend⟩ := exists_trimEnd_append (trimStart t)
    intro c hc
    have hstart : c ∈ (trimStart t).head? := by
      rw [← hend]
      exact List.mem_head?_append_of_mem_head? hc
    exact isBlank_of_head?_dropWhile hstart
  · intro c hc
    rw [trim, trimEnd, List.getLast?_reverse] at hc
    exact isBlank_of_head?_dropWhile hc

/-- **What is trimmed away is blank.** -/
theorem trim_eq_nil_iff_forall : trim t = [] ↔ ∀ c ∈ t, isBlank c := by
  constructor
  · intro h
    obtain ⟨before, after, hbefore, hafter, ht⟩ := exists_trim t
    rw [ht, h, List.append_nil]
    exact List.forall_mem_append.mpr ⟨hbefore, hafter⟩
  · intro h
    rw [trim, trimStart, List.dropWhile_eq_nil_iff.mpr h]
    rfl

end Text

/-! ## 2. Cutting -/

variable {comment : Char} {raw front rest : Text}

/-- The line is cut in front of its first comment character, or behind its end if it has none. -/
structure Cuts (comment : Char) (raw front rest : Text) : Prop where
  eq : raw = front ++ rest
  notMem : comment ∉ front
  head : ∀ c ∈ rest.head?, c = comment

/-- **There is no other cut** than the one that is made. -/
theorem Cuts.takeWhile_eq (h : Cuts comment raw front rest) :
    raw.takeWhile (· != comment) = front := by
  have hfront : ∀ c ∈ front, (c != comment) = true := by
    intro c hc
    rw [bne_iff_ne]
    rintro rfl
    exact h.notMem hc
  have hrest : rest.takeWhile (· != comment) = [] := by
    cases rest with
    | nil => rfl
    | cons c rest => rw [List.takeWhile_cons, h.head c rfl, bne_self_eq_false,
        if_neg Bool.false_ne_true]
  rw [h.eq, List.takeWhile_append_of_pos hfront, hrest, List.append_nil]

/-- The cut that is made is one. -/
theorem cuts_takeWhile (comment : Char) (raw : Text) :
    Cuts comment raw (raw.takeWhile (· != comment)) (raw.dropWhile (· != comment)) := by
  refine ⟨List.takeWhile_append_dropWhile.symm, ?_, ?_⟩
  · intro hmem
    simpa using List.mem_takeWhile_imp hmem
  · intro c hc
    have hhead := List.head?_dropWhile_not (· != comment) raw
    rw [Option.mem_def.mp hc] at hhead
    simpa using hhead

/-- A line without a comment is cut behind its end. -/
theorem cuts_of_notMem (h : comment ∉ raw) : Cuts comment raw raw [] := by
  refine ⟨(List.append_nil raw).symm, h, ?_⟩
  rintro c ⟨⟩

/-- **The cut may be made among the bytes** of the line, at the number of bytes in front of it. -/
theorem Cuts.decode?_take (h : Cuts comment raw front rest) :
    Text.decode? ((Text.encode raw).take (Text.encode front).length) = some front := by
  have hbytes : Text.encode raw = Text.encode front ++ Text.encode rest := by
    rw [h.eq, Text.encode, List.flatMap_append]
    rfl
  rw [hbytes, List.take_left, Text.decode?_encode]

/-! ## 3. The code -/

/-- The line is blanks, the code, blanks, and a comment or the end of the line. -/
def IsCode (comment : Char) (raw code : Text) : Prop :=
  ∃ before after rest : Text, Cuts comment raw (before ++ code ++ after) rest ∧
    (∀ c ∈ before, Text.isBlank c) ∧ (∀ c ∈ after, Text.isBlank c) ∧ code.IsTrimmed

theorem codePart?_eq_some_iff {code : Text} :
    codePart? comment raw = some code ↔
      Text.trim (raw.takeWhile (· != comment)) = code ∧ code ≠ [] := by
  simp only [codePart?]
  constructor
  · intro h
    split at h
    · cases h
    · rename_i hne
      cases h
      exact ⟨rfl, by simpa using hne⟩
  · rintro ⟨rfl, hne⟩
    simp [hne]

theorem codePart?_eq_none_iff :
    codePart? comment raw = none ↔ Text.trim (raw.takeWhile (· != comment)) = [] := by
  simp [codePart?]

/-- **What is left of a line is its code.** -/
theorem codePart?_eq_some_iff_isCode {code : Text} :
    codePart? comment raw = some code ↔ IsCode comment raw code := by
  rw [codePart?_eq_some_iff]
  constructor
  · rintro ⟨rfl, hne⟩
    obtain ⟨before, after, hbefore, hafter, hfront⟩ :=
      Text.exists_trim (raw.takeWhile (· != comment))
    have hcut := cuts_takeWhile comment raw
    rw [hfront] at hcut
    exact ⟨before, after, _, hcut, hbefore, hafter, Text.isTrimmed_trim hne⟩
  · rintro ⟨before, after, rest, hcut, hbefore, hafter, hcode⟩
    rw [hcut.takeWhile_eq]
    exact ⟨Text.trim_around hbefore hafter hcode, hcode.ne_nil⟩

/-- Code by itself is a line with nothing around its code. -/
theorem IsCode.self {code : Text} (h : IsCode comment raw code) : IsCode comment code code := by
  obtain ⟨before, after, rest, hcut, -, -, hcode⟩ := h
  have hnotMem : comment ∉ code := by
    intro hmem
    exact hcut.notMem (List.mem_append_left after (List.mem_append_right before hmem))
  exact ⟨[], [], [], by simpa using cuts_of_notMem hnotMem, by simp, by simp, hcode⟩

/-- **Stripping a line is exact**, for every line and every comment character.

What is left of the line is the code in it, of which there is one or none; nothing is left exactly
if all is blank in front of the first comment character, or in the whole line if there is none.
Code that is stripped once more stays as it is.  Where the line is cut, the cut leaves what decoding
the bytes in front of it gives, and the comment may be left out or be replaced by any other. -/
theorem stripping_is_exact (comment : Char) (raw : Text) :
    (∀ code, codePart? comment raw = some code ↔ IsCode comment raw code) ∧
    (∀ code code', IsCode comment raw code → IsCode comment raw code' → code = code') ∧
    (codePart? comment raw = none ↔
      ∃ front rest, Cuts comment raw front rest ∧ ∀ c ∈ front, Text.isBlank c) ∧
    (∀ code, codePart? comment raw = some code → codePart? comment code = some code) ∧
    ∀ front rest, Cuts comment raw front rest →
      Text.decode? ((Text.encode raw).take (Text.encode front).length) = some front ∧
      codePart? comment front = codePart? comment raw ∧
      ∀ other, codePart? comment (front ++ comment :: other) = codePart? comment raw := by
  refine ⟨fun code => codePart?_eq_some_iff_isCode, ?unique, ?none, ?again, ?front⟩
  case unique =>
    intro code code' hcode hcode'
    rw [← codePart?_eq_some_iff_isCode] at hcode hcode'
    exact Option.some.inj (hcode.symm.trans hcode')
  case none =>
    rw [codePart?_eq_none_iff, Text.trim_eq_nil_iff_forall]
    constructor
    · intro hblank
      exact ⟨_, _, cuts_takeWhile comment raw, hblank⟩
    · rintro ⟨front, rest, hcut, hblank⟩
      rwa [hcut.takeWhile_eq]
  case again =>
    intro code hcode
    rw [codePart?_eq_some_iff_isCode] at hcode ⊢
    exact hcode.self
  case front =>
    intro front rest hcut
    have hfront : codePart? comment front = codePart? comment raw := by
      rw [codePart?, (cuts_of_notMem hcut.notMem).takeWhile_eq, codePart?, hcut.takeWhile_eq]
    refine ⟨hcut.decode?_take, hfront, fun other => ?_⟩
    rw [codePart?_comment, hfront]

/-- A line with blanks of three bytes and of two, and a comment that starts with a letter of two
bytes.  With a blank for the comment character, nothing is left of a line that starts with it. -/
theorem stripping_is_exact_wide_characters :
    let front : Text := "\u2003G1 X1\u00A0".toList
    let raw : Text := front ++ "é X2 é".toList
    Cuts 'é' raw front "é X2 é".toList ∧
    IsCode 'é' raw "G1 X1".toList ∧
    codePart? 'é' raw = some "G1 X1".toList ∧
    codePart? 'é' "G1 X1".toList = some "G1 X1".toList ∧
    Text.decode? ((Text.encode raw).take 10) = some front ∧
    codePart? 'é' (front ++ 'é' :: "G0".toList) = some "G1 X1".toList ∧
    codePart? ' ' " G1".toList = none := by
  intro front raw
  have hcut : Cuts 'é' raw front "é X2 é".toList :=
    ⟨rfl, by decide, fun c hc => (Option.some.inj hc).symm⟩
  have hblank : Cuts ' ' " G1".toList [] " G1".toList :=
    ⟨rfl, by decide, fun c hc => (Option.some.inj hc).symm⟩
  have hcode : codePart? 'é' raw = some "G1 X1".toList := by decide
  obtain ⟨hsome, -, -, hagain, hfront⟩ := stripping_is_exact 'é' raw
  obtain ⟨hbytes, -, hother⟩ := hfront front _ hcut
  refine ⟨hcut, (hsome _).mp hcode, hcode, hagain _ hcode, hbytes, (hother _).trans hcode, ?_⟩
  exact (stripping_is_exact ' ' " G1".toList).2.2.1.mpr ⟨[], _, hblank, by simp⟩

end Motion
