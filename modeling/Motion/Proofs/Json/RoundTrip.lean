/-
# Reading JSON that was written

The values that a program writes are plain (`IsPlain`): their numbers are counts, and none of their
strings holds half of a surrogate pair.  A plain value is read as it was written
(`read?_write`), whatever its strings hold and however deep its arrays and objects are nested.

The writer puts items and members on lines of their own, and so both are read by the same argument
(`readAll?_lines`): each is read up to the comma or the line end behind it (`Ends`), and none starts
with a blank or with the character that closes the whole (`Starts`).  Every reader that calls itself
has a number of calls left, and the length of what it has to read is enough
(`length_items_lt`).
-/
import Mathlib.Algebra.BigOperators.Group.List.Basic
import Mathlib.Algebra.Order.BigOperators.Group.List
import Motion.Json.Reader
import Motion.Json.Writer
import Motion.Proofs.Text.Digits

namespace Motion.Json

open Text

/-! ## 1. Strings -/

theorem readMarks?_letter {e c : Char} (hunescape : unescape? e = some c) (hu : e ≠ 'u')
    (t : Text) :
    readMarks? ('\\' :: e :: t) = (readMarks? t).map fun r => (.char c :: r.1, r.2) := by
  rw [readMarks?]
  · rw [hunescape]
    cases readMarks? t <;> rfl
  · exact fun _ _ _ _ _ he => absurd he hu

theorem readMarks?_writeCode {n : Nat} (h : n < 0xD800) (t : Text) :
    readMarks? (writeCode n ++ t) =
      (readMarks? t).map fun r => (.char (Char.ofNat n) :: r.1, r.2) := by
  have hread : readHex? (hexPadded 4 n) = some n := by
    simpa using readHex?_map_hexPadded id hexValue?_digitChar 4 n
  have hlength := length_hexPadded_four (n := n) (by omega)
  have hmark : Mark.ofCode n = .char (Char.ofNat n) := by
    have hlead : Mark.isLead n = false := by simp [Mark.isLead]; omega
    have htrail : Mark.isTrail n = false := by simp [Mark.isTrail]; omega
    rw [Mark.ofCode, hlead, htrail]
    rfl
  match hdigits : hexPadded 4 n, hlength with
  | [a, b, c, d], _ =>
    rw [hdigits] at hread
    rw [writeCode, hdigits]
    simp only [List.cons_append, List.nil_append, readMarks?, hread, Option.bind_eq_bind,
      Option.bind_some, hmark]
    cases readMarks? t <;> rfl

theorem readMarks?_plain {c : Char} (hquote : c ≠ '"') (hslash : c ≠ '\\')
    (hcode : ¬ c.toNat < 0x20) (t : Text) :
    readMarks? (c :: t) = (readMarks? t).map fun r => (.char c :: r.1, r.2) := by
  rw [readMarks?]
  · rw [if_neg hcode]
    cases readMarks? t <;> rfl
  · exact hquote
  · intro a b c d rest h
    exact absurd h hslash
  · intro e rest h
    exact absurd h hslash

theorem readMarks?_writeChar (c : Char) (t : Text) :
    readMarks? (writeChar c ++ t) = (readMarks? t).map fun r => (.char c :: r.1, r.2) := by
  unfold writeChar
  cases hletter : controlLetter? c with
  | some letter =>
    have hall : ∀ entry ∈ controls, unescape? entry.1 = some entry.2 ∧ entry.1 ≠ 'u' := by decide
    obtain ⟨hunescape, hu⟩ := hall _ (mem_controls_of_controlLetter? hletter)
    exact readMarks?_letter hunescape hu t
  | none =>
    simp only
    split
    case isTrue hmark =>
      have hunescape : unescape? c = some c := by
        simp only [unescape?, hmark, Bool.true_or, if_true]
      refine readMarks?_letter hunescape ?_ t
      rintro rfl
      exact absurd hmark (by decide)
    case isFalse hmark =>
      split
      case isTrue hcode =>
        rw [readMarks?_writeCode (by omega), Char.ofNat_toNat]
      case isFalse hcode =>
        simp only [Bool.or_eq_true, beq_iff_eq, not_or] at hmark
        exact readMarks?_plain hmark.1 hmark.2 hcode t

/-- **A string is read as it was written.** -/
theorem readMarks?_writeString (t rest : Text) :
    readMarks? ((Mark.ofText t).flatMap writeMark ++ '"' :: rest) =
      some (Mark.ofText t, rest) := by
  induction t with
  | nil => rfl
  | cons c t ih =>
    simp only [Mark.ofText, List.map_cons, List.flatMap_cons, writeMark, List.append_assoc] at ih ⊢
    rw [readMarks?_writeChar, ih]
    rfl

/-! ## 2. What stands between tokens -/

/-- A text that starts as values and members do: with no blank, and with nothing that closes. -/
def Starts (t : Text) : Prop :=
  ∃ c rest, t = c :: rest ∧ isGap c = false ∧ c ≠ ']' ∧ c ≠ '\x7d'

theorem Starts.append {t : Text} (h : Starts t) (rest : Text) : Starts (t ++ rest) := by
  obtain ⟨c, t', rfl, hc⟩ := h
  exact ⟨c, t' ++ rest, rfl, hc⟩

theorem skip_cons {c : Char} (h : isGap c = false) (rest : Text) :
    skip (c :: rest) = c :: rest := by
  rw [skip, List.dropWhile_cons, h]
  rfl

theorem Starts.skip {t : Text} (h : Starts t) : skip t = t := by
  obtain ⟨c, rest, rfl, hc, -⟩ := h
  exact skip_cons hc rest

theorem skip_newLine (depth : Nat) (t : Text) : skip (newLine depth ++ t) = skip t := by
  have hgaps : ∀ c ∈ newLine depth, isGap c = true := by
    intro c hc
    rcases List.mem_cons.mp hc with rfl | hc
    · rfl
    · rw [(List.mem_replicate.mp hc).2]
      rfl
  exact List.dropWhile_append_of_pos hgaps

/-- A text that goes on with something else than a number. -/
def Ends (rest : Text) : Prop := ∀ c ∈ rest.head?, c = ',' ∨ c = '\n'

theorem ends_newLine (depth : Nat) (t : Text) : Ends (newLine depth ++ t) := by
  intro c hc
  exact Or.inr (Option.some.inj hc).symm

theorem ends_comma (t : Text) : Ends (',' :: t) := fun _ hc => Or.inl (Option.some.inj hc).symm

/-! ## 3. Items on lines of their own -/

section Items

variable {β : Type} {close : Char} {item : Text → Option (β × Text)} {write : β → Text}

theorem readItems?_last {calls : Nat} {t behind rest : Text} {b : β} (hclose : close ≠ ',')
    (hitem : item (skip t) = some (b, behind)) (hbehind : skip behind = close :: rest) :
    readItems? close item (calls + 1) t = some ([b], rest) := by
  simp only [readItems?, hitem, hbehind, Option.bind_eq_bind, Option.bind_some]
  exact if_pos (beq_self_eq_true close)

theorem readItems?_comma {calls : Nat} {t behind rest : Text} {b : β}
    (hitem : item (skip t) = some (b, behind)) (hbehind : skip behind = ',' :: rest) :
    readItems? close item (calls + 1) t =
      (readItems? close item calls rest).map fun r => (b :: r.1, r.2) := by
  simp only [readItems?, hitem, hbehind, Option.bind_eq_bind, Option.bind_some]
  cases readItems? close item calls rest <;> rfl

/-- **Items that stand on lines of their own are read one by one**, if each is read as it was
written. -/
theorem readItems?_lines {first : β} {others : List β} {calls : Nat} {t : Text}
    (hread : ∀ b ∈ first :: others, ∀ rest, Ends rest → item (write b ++ rest) = some (b, rest))
    (hstarts : ∀ b ∈ others, Starts (write b)) (hclose : close ≠ ',') (hgap : isGap close = false)
    (hcalls : others.length < calls) (inner outer : Nat) (rest : Text)
    (ht : skip t = write first ++ (others.flatMap (fun b => ',' :: (newLine inner ++ write b)) ++
      (newLine outer ++ close :: rest))) :
    readItems? close item calls t = some (first :: others, rest) := by
  induction others generalizing first calls t with
  | nil =>
    obtain ⟨calls, rfl⟩ := Nat.exists_eq_succ_of_ne_zero (Nat.ne_zero_of_lt hcalls)
    have hfirst := hread first List.mem_cons_self (newLine outer ++ close :: rest)
      (ends_newLine _ _)
    rw [List.flatMap_nil, List.nil_append] at ht
    exact readItems?_last hclose (ht ▸ hfirst) ((skip_newLine outer _).trans (skip_cons hgap rest))
  | cons second others ih =>
    obtain ⟨calls, rfl⟩ := Nat.exists_eq_succ_of_ne_zero (Nat.ne_zero_of_lt hcalls)
    -- behind the first item stand a comma and the others, each on a new line
    simp only [List.flatMap_cons, List.cons_append, List.append_assoc] at ht
    have hfirst : item (skip t) = some (first, _) :=
      ht ▸ hread first List.mem_cons_self _ (ends_comma _)
    rw [readItems?_comma hfirst (skip_cons rfl _)]
    have hsecond := (hstarts second List.mem_cons_self).append
      (others.flatMap (fun b => ',' :: (newLine inner ++ write b)) ++
        (newLine outer ++ close :: rest))
    rw [ih (fun b hb => hread b (List.mem_cons_of_mem _ hb))
      (fun b hb => hstarts b (List.mem_cons_of_mem _ hb)) (Nat.lt_of_succ_lt_succ hcalls)
      ((skip_newLine inner _).trans hsecond.skip)]
    rfl

theorem readAll?_lines {first : β} {others : List β} {calls : Nat}
    (hread : ∀ b ∈ first :: others, ∀ rest, Ends rest → item (write b ++ rest) = some (b, rest))
    (hstarts : ∀ b ∈ first :: others, Starts (write b)) (hclose : close = ']' ∨ close = '\x7d')
    (hcalls : others.length < calls) (inner outer : Nat) (rest : Text) :
    readAll? close item calls (newLine inner ++ (write first ++
        (others.flatMap (fun b => ',' :: (newLine inner ++ write b)) ++
          (newLine outer ++ close :: rest)))) =
      some (first :: others, rest) := by
  have hcomma : close ≠ ',' ∧ isGap close = false := by rcases hclose with rfl | rfl <;> decide
  have hfirst := (hstarts first List.mem_cons_self).append
    (others.flatMap (fun b => ',' :: (newLine inner ++ write b)) ++
      (newLine outer ++ close :: rest))
  have hitems (t : Text) (ht : t = write first ++ _) :=
    readItems?_lines (t := t) hread (fun b hb => hstarts b (List.mem_cons_of_mem _ hb)) hcomma.1
      hcomma.2 hcalls inner outer rest (ht ▸ hfirst.skip)
  obtain ⟨c, t, ht, hgap, hbracket, hbrace⟩ := hfirst
  have hc : (c == close) = false := by
    rcases hclose with rfl | rfl
    · exact beq_eq_false_iff_ne.mpr hbracket
    · exact beq_eq_false_iff_ne.mpr hbrace
  simp only [readAll?, skip_newLine, ht, skip_cons hgap, hc, Bool.false_eq_true, if_false]
  exact hitems _ ht.symm

/-- The calls that are enough for the whole are enough for its items. -/
theorem length_items_lt {first : β} {others : List β} {inner outer calls : Nat}
    (h : (newLine inner ++ (write first ++
      (others.flatMap (fun b => ',' :: (newLine inner ++ write b)) ++
        (newLine outer ++ [close])))).length < calls) :
    others.length < calls ∧ ∀ b ∈ first :: others, (write b).length < calls := by
  simp only [List.length_append, List.length_flatMap, List.length_cons] at h
  have hcount := List.length_le_sum_of_one_le
    (others.map fun b => (newLine inner).length + (write b).length + 1) (by simp)
  rw [List.length_map] at hcount
  refine ⟨by omega, fun b hb => ?_⟩
  rcases List.mem_cons.mp hb with rfl | hb
  · omega
  · have hle := List.le_sum_of_mem (List.mem_map_of_mem
      (f := fun b => (newLine inner).length + (write b).length + 1) hb)
    omega

end Items

/-! ## 4. Values -/

/-- The values that a program writes: their only numbers are counts, and their strings are texts. -/
inductive IsPlain : Json → Prop where
  | null : IsPlain null
  | bool (b : Bool) : IsPlain (bool b)
  | count (n : Nat) : IsPlain (count n)
  | text (t : Text) : IsPlain (text t)
  | array {items : List Json} (h : ∀ v ∈ items, IsPlain v) : IsPlain (array items)
  | object {members : List (List Mark × Json)} (keys : ∀ m ∈ members, ∃ t, m.1 = Mark.ofText t)
      (values : ∀ m ∈ members, IsPlain m.2) : IsPlain (object members)

theorem readNumber?_count (n : Nat) {rest : Text} (h : Ends rest) :
    readNumber? (Nat.toDigits 10 n ++ rest) = some (Nat.toDigits 10 n, rest) := by
  have hspan := span_append (p := isDigit) (fun c hc => isDigit_of_mem_toDigits (n := n) hc)
    (fun c hc => by rcases h c hc with rfl | rfl <;> decide)
  have hread : readDigits? (Nat.toDigits 10 n ++ rest) = some (Nat.toDigits 10 n, rest) := by
    rw [readDigits?, hspan.1, hspan.2]
    simp [Nat.toDigits_ne_nil]
  have hwhole : readWhole? (Nat.toDigits 10 n ++ rest) = some (Nat.toDigits 10 n, rest) := by
    have hzero : ((Nat.toDigits 10 n).head? == some '0' && Nat.toDigits 10 n != ['0']) = false := by
      rw [Bool.and_eq_false_iff]
      by_cases hhead : (Nat.toDigits 10 n).head? = some '0'
      · exact Or.inr (by rw [toDigits_eq_zero_of_head? hhead]; rfl)
      · exact Or.inl (beq_eq_false_iff_ne.mpr hhead)
    simp only [readWhole?, hread, Option.bind_eq_bind, Option.bind_some, hzero, Bool.false_eq_true,
      if_false]
  have hend : readFraction? rest = some ([], rest) ∧ readPower? rest = some ([], rest) := by
    cases rest with
    | nil => exact ⟨rfl, rfl⟩
    | cons c rest => rcases h c rfl with rfl | rfl <;> exact ⟨rfl, rfl⟩
  have hunsigned : readUnsigned? (Nat.toDigits 10 n ++ rest) = some (Nat.toDigits 10 n, rest) := by
    simp only [readUnsigned?, hwhole, hend, Option.bind_eq_bind, Option.bind_some, List.append_nil]
  obtain ⟨c, digits, hcons, hdigit⟩ := exists_toDigits_eq_cons n
  rw [hcons, List.cons_append] at hunsigned ⊢
  rw [readNumber?, hunsigned]
  exact fun rest h => ne_of_holds hdigit (by decide) (List.cons.inj h).1

/-- A member of an object at a depth. -/
def writeMember (depth : Nat) (m : List Mark × Json) : Text :=
  writeString m.1 ++ (':' :: ' ' :: writeAt depth m.2)

theorem writeItems_eq (depth : Nat) (items : List Json) :
    writeItems depth items = items.flatMap fun v => ',' :: (newLine depth ++ writeAt depth v) := by
  induction items with
  | nil => rfl
  | cons v rest ih =>
    rw [writeItems, ih, List.flatMap_cons]
    rfl

theorem writeMembers_eq (depth : Nat) (members : List (List Mark × Json)) :
    writeMembers depth members =
      members.flatMap fun m => ',' :: (newLine depth ++ writeMember depth m) := by
  induction members with
  | nil => rfl
  | cons m rest ih =>
    rw [writeMembers, ih, List.flatMap_cons, writeMember]
    simp only [List.cons_append, List.append_assoc, List.nil_append]

/-- A value over lines. -/
theorem writeAt_array (depth : Nat) (v : Json) (rest : List Json) (t : Text) :
    writeAt depth (.array (v :: rest)) ++ t =
      '[' :: (newLine (depth + 1) ++ (writeAt (depth + 1) v ++
        (rest.flatMap (fun v => ',' :: (newLine (depth + 1) ++ writeAt (depth + 1) v)) ++
          (newLine depth ++ ']' :: t)))) := by
  simp only [writeAt, writeItems_eq, List.cons_append, List.append_assoc, List.nil_append]

theorem writeAt_object (depth : Nat) (m : List Mark × Json) (rest : List (List Mark × Json))
    (t : Text) :
    writeAt depth (.object (m :: rest)) ++ t =
      '\x7b' :: (newLine (depth + 1) ++ (writeMember (depth + 1) m ++
        (rest.flatMap (fun m => ',' :: (newLine (depth + 1) ++ writeMember (depth + 1) m)) ++
          (newLine depth ++ '\x7d' :: t)))) := by
  simp only [writeAt, writeMembers_eq, writeMember, List.cons_append, List.append_assoc,
    List.nil_append]

theorem starts_writeAt {v : Json} (h : IsPlain v) (depth : Nat) : Starts (writeAt depth v) := by
  cases h with
  | null => exact ⟨'n', "ull".toList, rfl, by decide⟩
  | bool b =>
    cases b with
    | true => exact ⟨'t', "rue".toList, rfl, by decide⟩
    | false => exact ⟨'f', "alse".toList, rfl, by decide⟩
  | count n =>
    obtain ⟨c, digits, hcons, hdigit⟩ := exists_toDigits_eq_cons n
    have hne {d : Char} (hd : isDigit d = false) : c ≠ d := ne_of_holds hdigit hd
    have hgap : isGap c = false := by
      simp [isGap, hne (d := ' ') (by decide), hne (d := '\t') (by decide),
        hne (d := '\n') (by decide), hne (d := '\r') (by decide)]
    exact ⟨c, digits, hcons, hgap, hne (by decide), hne (by decide)⟩
  | text t => exact ⟨'"', _, rfl, by decide⟩
  | @array items _ =>
    cases items with
    | nil => exact ⟨'[', _, rfl, by decide⟩
    | cons v rest =>
      have hform := (List.append_nil _).symm.trans (writeAt_array depth v rest [])
      exact ⟨'[', _, hform, by decide⟩
  | @object members _ _ =>
    cases members with
    | nil => exact ⟨'\x7b', _, rfl, by decide⟩
    | cons m rest =>
      have hform := (List.append_nil _).symm.trans (writeAt_object depth m rest [])
      exact ⟨'\x7b', _, hform, by decide⟩

theorem readMember?_writeMember {value : Text → Option (Json × Text)} {m : List Mark × Json}
    {depth : Nat} {rest : Text} (hkey : ∃ t, m.1 = Mark.ofText t) (hplain : IsPlain m.2)
    (hvalue : value (writeAt depth m.2 ++ rest) = some (m.2, rest)) :
    readMember? value (writeMember depth m ++ rest) = some (m, rest) := by
  obtain ⟨marks, v⟩ := m
  obtain ⟨t, rfl⟩ : ∃ t, marks = Mark.ofText t := hkey
  have hskip : skip (' ' :: (writeAt depth v ++ rest)) = writeAt depth v ++ rest :=
    ((starts_writeAt hplain depth).append rest).skip
  simp only [writeMember, writeString, List.cons_append, List.append_assoc, List.nil_append,
    readMember?, readMarks?_writeString, Option.bind_eq_bind, Option.bind_some,
    skip_cons (c := ':') rfl]
  rw [hskip, hvalue]
  rfl

/-- **A plain value is read as it was written**, with as many calls as its text has characters. -/
theorem readValue?_writeAt {v : Json} (hv : IsPlain v) {calls depth : Nat} {rest : Text}
    (hcalls : (writeAt depth v).length < calls) (hrest : Ends rest) :
    readValue? calls (writeAt depth v ++ rest) = some (v, rest) := by
  induction hv generalizing calls depth rest
  all_goals obtain ⟨calls, rfl⟩ := Nat.exists_eq_succ_of_ne_zero (Nat.ne_zero_of_lt hcalls)
  case null => rfl
  case bool b => cases b <;> rfl
  case count n =>
    have hnumber := readNumber?_count n hrest
    obtain ⟨c, digits, hcons, hdigit⟩ := exists_toDigits_eq_cons n
    have hne {d : Char} (hd : isDigit d = false) {t t' : Text} (h : c :: t = d :: t') : False :=
      ne_of_holds hdigit hd (List.cons.inj h).1
    rw [count, writeAt]
    rw [hcons, List.cons_append] at hnumber ⊢
    rw [readValue?, hnumber]
    · rfl
    all_goals exact fun _ h => hne (by decide) h
  case text t =>
    simp only [text, writeAt, writeString, List.cons_append, List.append_assoc, List.nil_append,
      readValue?, readMarks?_writeString]
    rfl
  case array items h ih =>
    cases items with
    | nil => rfl
    | cons first others =>
      rw [← List.append_nil (writeAt depth _), writeAt_array, List.length_cons] at hcalls
      obtain ⟨hcount, hlengths⟩ := length_items_lt (Nat.lt_of_succ_lt_succ hcalls)
      rw [writeAt_array, readValue?,
        readAll?_lines (fun v hv rest hrest => ih v hv (hlengths v hv) hrest)
          (fun v hv => starts_writeAt (h v hv) _) (Or.inl rfl) hcount]
      rfl
  case object members keys values ih =>
    cases members with
    | nil => rfl
    | cons first others =>
      rw [← List.append_nil (writeAt depth _), writeAt_object, List.length_cons] at hcalls
      obtain ⟨hcount, hlengths⟩ := length_items_lt (Nat.lt_of_succ_lt_succ hcalls)
      have hread : ∀ m ∈ first :: others, ∀ rest, Ends rest →
          readMember? (readValue? calls) (writeMember (depth + 1) m ++ rest) = some (m, rest) := by
        intro m hm rest hrest
        have hlength : (writeAt (depth + 1) m.2).length < calls := by
          have hmember := hlengths m hm
          simp only [writeMember, List.length_append, List.length_cons] at hmember
          omega
        exact readMember?_writeMember (keys m hm) (values m hm) (ih m hm hlength hrest)
      rw [writeAt_object, readValue?, readAll?_lines hread
        (fun m hm => ⟨'"', _, rfl, by decide⟩) (Or.inr rfl) hcount]
      rfl

/-- **Reading a JSON text that was written** gives the value back. -/
theorem read?_write {v : Json} (h : IsPlain v) : read? (write v) = some v := by
  have hstart : skip (write v) = write v := (starts_writeAt h 0).skip
  have hend : Ends [] := fun c hc => nomatch hc
  have hread : readValue? ((writeAt 0 v).length + 1) (writeAt 0 v ++ []) = some (v, []) :=
    readValue?_writeAt h (Nat.lt_succ_self _) hend
  rw [List.append_nil] at hread
  rw [read?, hstart, write, hread]
  rfl

end Motion.Json
