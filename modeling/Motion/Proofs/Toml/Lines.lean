/-
# Reading TOML lines that were written

Three kinds of lines are written: headers, empty lines, and lines that give a key its value.  Each
is read as one step of the reader of lines, so a text of such lines is read by taking the steps one
after the other (`readLines?_cons`).

The values are strings, arrays of strings, and the bare values of flags and counts.  A run of digits
is a whole number only because it is no date and no time: those have characters between their digits
(`isMoment_of_digits`).
-/
import Motion.Proofs.Toml.Strings
import Motion.Toml.Reader

namespace Motion.Toml

open Text

/-! ## 1. Digits -/

theorem digits?_of_isDigit {t : Text} (hne : t ≠ []) (h : ∀ c ∈ t, isDigit c = true) :
    digits? isDigit t = some t := by
  induction t with
  | nil => exact absurd rfl hne
  | cons c t ih =>
    have hc := h c List.mem_cons_self
    cases t with
    | nil => rw [digits?, if_pos hc]
    | cons d t =>
      have hd : d ≠ '_' := ne_of_holds (h d (by simp)) (by decide)
      rw [digits?, if_pos hc, ih (List.cons_ne_nil d t) fun e he => h e (List.mem_cons_of_mem c he)]
      · rfl
      · intro hnil
        cases hnil
      · exact fun rest ht => hd (List.cons.inj ht).1

theorem isDate_of_notMem {t : Text} (h : '-' ∉ t) : isDate t = false := by
  rw [isDate, List.splitOn_eq_singleton h]

theorem isMoment_of_digits {t : Text} (h : ∀ c ∈ t, isDigit c = true) : isMoment t = false := by
  have hdate (u : Text) (hu : ∀ c ∈ u, c ∈ t) : isDate u = false :=
    isDate_of_notMem fun hmem => absurd (h '-' (hu '-' hmem)) (by decide)
  have htime : ((t.drop 5).head? == some ':') = false := by
    rw [beq_eq_false_iff_ne]
    intro hhead
    exact absurd (h ':' (List.mem_of_mem_drop (List.mem_of_head? hhead))) (by decide)
  rw [isMoment, isTime, htime, hdate t fun _ hc => hc,
    hdate (t.take 10) fun _ hc => List.mem_of_mem_take hc]
  simp

/-- A run of digits is a whole number, if no zero stands needlessly before it. -/
theorem whole?_of_isDigit {c : Char} {t : Text} (h : ∀ d ∈ c :: t, isDigit d = true)
    (hzero : c = '0' → t = []) : whole? (c :: t) = fitting? (valueIn 10 (c :: t)) := by
  have hne {d : Char} (hd : isDigit d = false) : c ≠ d :=
    ne_of_holds (h c List.mem_cons_self) hd
  have hdecimal : decimalDigits? (c :: t) = some (c :: t) := by
    have hneedless : ((c :: t).head? == some '0' && (c :: t).length != 1) = false := by
      rw [Bool.and_eq_false_iff]
      by_cases hc : c = '0'
      · exact Or.inr (by rw [hzero hc]; rfl)
      · exact Or.inl (beq_eq_false_iff_ne.mpr fun hhead => hc (Option.some.inj hhead))
    rw [decimalDigits?, hneedless, if_neg Bool.false_ne_true,
      digits?_of_isDigit (List.cons_ne_nil c t) h]
  have hsigned : signed (c :: t) = (false, c :: t) := by
    rw [signed]
    · exact fun u ht => hne (by decide) (List.cons.inj ht).1
    · exact fun u ht => hne (by decide) (List.cons.inj ht).1
  rw [whole?]
  · rw [hsigned]
    dsimp only
    rw [hdecimal, Option.bind_some, if_neg Bool.false_ne_true]
  -- what follows a first zero is a digit, and so no letter of another base
  all_goals
    intro u ht
    obtain ⟨rfl, rfl⟩ := List.cons.inj ht
    cases hzero rfl

/-- **A count is read as it was written.** -/
theorem bareValue?_toDigits {n : Nat} (h : n < 0x8000000000000000) :
    bareValue? (Nat.toDigits 10 n) = some (.whole n) := by
  have hdigits : ∀ c ∈ Nat.toDigits 10 n, isDigit c = true := fun c hc => isDigit_of_mem_toDigits hc
  have hvalue : valueIn 10 (Nat.toDigits 10 n) = n :=
    foldl_toDigits (by decide) (fun d hd => by rw [hexValue?_digitChar d (by omega)]; rfl) n
  have hfitting : fitting? (n : Int) = some (.whole n) := if_pos ⟨by omega, by omega⟩
  have hhead := toDigits_eq_zero_of_head? (n := n)
  obtain ⟨c, t, hcons, hc⟩ := exists_toDigits_eq_cons n
  rw [hcons] at hdigits hvalue hhead ⊢
  have hne {d : Char} (hd : isDigit d = false) {u : Text} : (c :: t == d :: u) = false :=
    beq_eq_false_iff_ne.mpr fun ht => ne_of_holds hc hd (List.cons.inj ht).1
  have hwhole : whole? (c :: t) = some (.whole n) := by
    rw [whole?_of_isDigit hdigits fun hc => (List.cons.inj (hhead (congrArg some hc))).2, hvalue,
      hfitting]
  have htrue : (c :: t == "true".toList) = false := hne (d := 't') (by decide)
  have hfalse : (c :: t == "false".toList) = false := hne (d := 'f') (by decide)
  rw [bareValue?, htrue, hfalse, isMoment_of_digits hdigits, hwhole]
  rfl

/-! ## 2. Values -/

/-- A text behind a value: what ends a line, separates items or closes an array. -/
def Ends (rest : Text) : Prop := ∀ c ∈ rest.head?, c = '\n' ∨ c = ',' ∨ c = ']'

theorem ends_feed (rest : Text) : Ends ('\n' :: rest) := fun _ h => Or.inl (Option.some.inj h).symm

theorem ends_comma (rest : Text) : Ends (',' :: rest) :=
  fun _ h => Or.inr (Or.inl (Option.some.inj h).symm)

theorem ends_bracket (rest : Text) : Ends (']' :: rest) :=
  fun _ h => Or.inr (Or.inr (Option.some.inj h).symm)

theorem readValue?_eq_readScalar? {c : Char} (harray : c ≠ '[') (htable : c ≠ '\x7b') (depth : Nat)
    (t : Text) : readValue? depth (c :: t) = readScalar? (c :: t) := by
  cases depth with
  | zero => rfl
  | succ depth =>
    rw [readValue?]
    · intro _ _ _ h
      exact harray (List.cons.inj h).1
    · intro _ _ _ h
      exact htable (List.cons.inj h).1

theorem readValue?_array (depth : Nat) (rest : Text) :
    readValue? (depth + 1) ('[' :: rest) =
      (readItems? (readValue? depth) (rest.length + 1) rest).map fun r => (.array r.1, r.2) := rfl

theorem exists_writeString_eq_cons (t : Text) :
    ∃ c u, writeString t = c :: u ∧ (c = '"' ∨ c = '\'') := by
  unfold writeString
  cases Style.of t with
  | basic => exact ⟨'"', _, rfl, Or.inl rfl⟩
  | literal => exact ⟨'\'', _, rfl, Or.inr rfl⟩
  | basicLines => exact ⟨'"', _, by simp; rfl, Or.inl rfl⟩
  | literalLines => exact ⟨'\'', _, by simp; rfl, Or.inr rfl⟩

/-- **The value of a string.** -/
theorem readValue?_writeString (depth : Nat) (t : Text) {rest : Text} (h : Ends rest) :
    readValue? depth (writeString t ++ rest) = some (.text t, rest) := by
  have hread : readString? (writeString t ++ rest) = some (t, rest) := by
    refine readString?_writeString t fun c hc => ?_
    rcases h c hc with rfl | rfl | rfl <;> decide
  obtain ⟨c, u, hform, hc⟩ := exists_writeString_eq_cons t
  rw [hform] at hread ⊢
  have hscalar : c ≠ '[' ∧ c ≠ '\x7b' := by rcases hc with rfl | rfl <;> decide
  rw [List.cons_append] at hread ⊢
  rw [readValue?_eq_readScalar? hscalar.1 hscalar.2, readScalar?, hread]

/-- **A bare value** at the end of a line. -/
theorem readValue?_bare (depth : Nat) {run : Text} {v : Value} (hne : run ≠ [])
    (hrun : ∀ c ∈ run, isBare c = true) (hv : bareValue? run = some v) (rest : Text) :
    readValue? depth (run ++ '\n' :: rest) = some (v, '\n' :: rest) := by
  obtain ⟨c, t, rfl⟩ := List.exists_cons_of_ne_nil hne
  have hc {d : Char} (hd : isBare d = false) : c ≠ d := ne_of_holds (hrun c List.mem_cons_self) hd
  have hstring : readString? (c :: t ++ '\n' :: rest) = none := by
    have hquote : c ≠ '"' := hc (by decide)
    have hapostrophe : c ≠ '\'' := hc (by decide)
    rw [List.cons_append, readString?, readShortString?]
    all_goals simp [hquote, hapostrophe]
  have hbare : bareRun (c :: t ++ '\n' :: rest) = (c :: t, '\n' :: rest) := by
    have hfeed : ∀ d ∈ ('\n' :: rest).head?, isBare d = false :=
      fun d hd => Option.some.inj hd ▸ by decide
    have hspan := span_append hrun hfeed
    simp only [bareRun, hspan.1, hspan.2]
    rfl
  rw [List.cons_append] at hstring hbare ⊢
  rw [readValue?_eq_readScalar? (hc (by decide)) (hc (by decide)), readScalar?, hstring]
  simp only [hbare, hv, Option.map_some]

theorem skipLines?_cons {c : Char} (hgap : isGap c = false) (hfeed : c ≠ '\n') (hreturn : c ≠ '\r')
    (hcomment : c ≠ '#') (t : Text) : skipLines? false (c :: t) = some (c :: t) := by
  rw [skipLines?]
  · rw [hgap, if_neg Bool.false_ne_true]
  all_goals simp [hfeed, hreturn, hcomment]

/-- The reader of items at a string. -/
theorem skipLines?_writeString (t rest : Text) :
    skipLines? false (writeString t ++ rest) = some (writeString t ++ rest) := by
  obtain ⟨c, u, hform, hc⟩ := exists_writeString_eq_cons t
  rw [hform, List.cons_append]
  rcases hc with rfl | rfl <;> exact skipLines?_cons rfl (by decide) (by decide) (by decide) _

section Items

variable {depth turns : Nat} {t start rest : Text}

/-- A string in an array: what follows decides. -/
theorem readItems?_writeString (hstart : skipLines? false start = some (writeString t ++ rest))
    (hrest : Ends rest) :
    readItems? (readValue? depth) (turns + 1) start = (do
      match ← skipLines? false rest with
      | ']' :: rest => some ([.text t], rest)
      | ',' :: rest =>
        let (others, rest) ← readItems? (readValue? depth) turns rest
        some (.text t :: others, rest)
      | _ => none) := by
  have hvalue := readValue?_writeString depth t hrest
  obtain ⟨c, u, hform, hc⟩ := exists_writeString_eq_cons t
  have hne : c ≠ ']' := by rcases hc with rfl | rfl <;> decide
  rw [hform, List.cons_append] at hstart hvalue
  simp only [readItems?, hstart, Option.bind_eq_bind, Option.bind_some]
  split
  case h_1 h => exact absurd (List.cons.inj h).1 hne
  case h_2 =>
    rewrite [hvalue, Option.bind_some]
    rfl

/-- A string before a comma. -/
theorem readItems?_comma (h : skipLines? false start = some (writeString t ++ ',' :: rest)) :
    readItems? (readValue? depth) (turns + 1) start =
      (readItems? (readValue? depth) turns rest).map fun r => (.text t :: r.1, r.2) := by
  have hcomma : skipLines? false (',' :: rest) = some (',' :: rest) :=
    skipLines?_cons rfl (by decide) (by decide) (by decide) rest
  rw [readItems?_writeString h (ends_comma rest), hcomma]
  simp only [Option.bind_eq_bind, Option.bind_some]
  cases readItems? (readValue? depth) turns rest <;> rfl

/-- A string before the bracket. -/
theorem readItems?_last (h : skipLines? false start = some (writeString t ++ ']' :: rest)) :
    readItems? (readValue? depth) (turns + 1) start = some ([.text t], rest) := by
  have hbracket : skipLines? false (']' :: rest) = some (']' :: rest) :=
    skipLines?_cons rfl (by decide) (by decide) (by decide) rest
  rw [readItems?_writeString h (ends_bracket rest), hbracket]
  rfl

/-- The bracket behind the last comma. -/
theorem readItems?_end (h : skipLines? false start = some (']' :: rest)) :
    readItems? (readValue? depth) (turns + 1) start = some ([], rest) := by
  simp only [readItems?, h, Option.bind_eq_bind, Option.bind_some]

end Items

/-! ## 3. Lines -/

/-- A key that can be written without quotes. -/
def IsBareKey (key : Text) : Prop := key ≠ [] ∧ key.all isKeyChar = true

theorem IsBareKey.forall_mem {key : Text} (h : IsBareKey key) : ∀ c ∈ key, isKeyChar c = true :=
  List.all_eq_true.mp h.2

theorem skip_cons {c : Char} (h : isGap c = false) (t : Text) : skip (c :: t) = c :: t := by
  rw [skip, List.dropWhile_cons, h]
  rfl

theorem IsBareKey.exists_cons {key : Text} (h : IsBareKey key) :
    ∃ c t, key = c :: t ∧ isGap c = false ∧ c ≠ '[' ∧ c ≠ '#' ∧ c ≠ '\n' ∧ c ≠ '\r' := by
  obtain ⟨c, t, rfl⟩ := List.exists_cons_of_ne_nil h.1
  have hc {d : Char} (hd : isKeyChar d = false) : c ≠ d :=
    ne_of_holds (h.forall_mem c List.mem_cons_self) hd
  refine ⟨c, t, rfl, ?_, hc (by decide), hc (by decide), hc (by decide), hc (by decide)⟩
  have hspace := hc (d := ' ') (by decide)
  have htab := hc (d := '\t') (by decide)
  simp [isGap, hspace, htab]

/-- A key without points, before something that is none of its characters. -/
theorem readKey?_bare {key : Text} (h : IsBareKey key) {c : Char} (behind : Text) {rest : Text}
    (hend : ∀ d ∈ behind.head?, isKeyChar d = false) (hbehind : skip behind = c :: rest)
    (hpoint : c ≠ '.') : readKey? (key ++ behind) = some ([key], c :: rest) := by
  have hpart : readPart? (key ++ behind) = some (key, behind) := by
    have hspan := span_append h.forall_mem hend
    rw [readPart?, hspan.1, hspan.2]
    simp [h.1]
  obtain ⟨d, t, hcons, hgap, -⟩ := h.exists_cons
  have hskip : skip (key ++ behind) = key ++ behind := by
    rw [hcons]
    exact skip_cons hgap _
  have hparts (turns : Nat) : readParts? (turns + 1) (key ++ behind) = some ([key], c :: rest) := by
    simp only [readParts?, hskip, hpart, Option.bind_eq_bind, Option.bind_some, hbehind]
    split
    case h_1 heq => exact absurd (List.cons.inj heq).1 hpoint
    case h_2 => rfl
  exact hparts _

/-- A header line. -/
def headerLine (key : Text) : Text := '[' :: key ++ [']', '\n']

/-- A line that gives a key its value. -/
def entryLine (key v : Text) : Text := key ++ " = ".toList ++ v ++ ['\n']

/-- **A header line opens its table.** -/
theorem readLine?_headerLine {draft : Draft} {key rest : Text} {ms : Members} (h : IsBareKey key)
    (hopen : openTable [key] draft.members = some ms) :
    readLine? draft (headerLine key ++ rest) = some (⟨ms, [key]⟩, rest) := by
  have hkey := readKey?_bare h (']' :: '\n' :: rest) (by simp; decide)
    (skip_cons rfl _) (by decide)
  obtain ⟨c, t, hcons, hgap, hbracket, -⟩ := h.exists_cons
  have hform : headerLine key ++ rest = '[' :: (key ++ ']' :: '\n' :: rest) := by
    simp [headerLine]
  have hfinish : finishLine? ('\n' :: rest) = some rest := rfl
  rw [hform, readLine?, skip_cons rfl]
  rw [hcons, List.cons_append] at hkey ⊢
  simp only
  rw [readHeader?]
  · simp only [hkey, ← hcons, hopen, Option.bind_eq_bind, Option.bind_some, hfinish,
      Option.map_some]
  · exact fun u hu => hbracket (List.cons.inj hu).1

/-- An empty line changes nothing. -/
theorem readLine?_feed (draft : Draft) (rest : Text) :
    readLine? draft ('\n' :: rest) = some (draft, rest) := rfl

/-- **A line that gives a key its value** enters it into the table of the last header. -/
theorem readLine?_entryLine {draft : Draft} {key v rest : Text} {value : Value} {ms : Members}
    (h : IsBareKey key) (hstart : ∀ c ∈ v.head?, isGap c = false)
    (hvalue : readValue? maxDepth (v ++ '\n' :: rest) = some (value, '\n' :: rest))
    (hassign : atTable (assign value false .header [key]) draft.header draft.members = some ms) :
    readLine? draft (entryLine key v ++ rest) = some (⟨ms, draft.header⟩, rest) := by
  have hform : entryLine key v ++ rest = key ++ ' ' :: '=' :: ' ' :: (v ++ '\n' :: rest) := by
    simp [entryLine]
  have hkey := readKey?_bare h (' ' :: '=' :: ' ' :: (v ++ '\n' :: rest))
    (by simp; decide) (skip_cons (c := '=') rfl _) (by decide)
  have hskip : skip (' ' :: (v ++ '\n' :: rest)) = v ++ '\n' :: rest := by
    cases v with
    | nil => rfl
    | cons d v => exact skip_cons (hstart d rfl) _
  have hentry : readEntry? (readValue? maxDepth) (key ++ ' ' :: '=' :: ' ' :: (v ++ '\n' :: rest)) =
      some (([key], value), '\n' :: rest) := by
    simp only [ readEntry?, hkey, hskip, hvalue, Option.bind_eq_bind, Option.bind_some]
  have hfinish : finishLine? ('\n' :: rest) = some rest := rfl
  have hassignment : readAssignment? draft (key ++ ' ' :: '=' :: ' ' :: (v ++ '\n' :: rest)) =
      some (⟨ms, draft.header⟩, rest) := by
    simp only [readAssignment?, hentry, hassign, hfinish, Option.bind_eq_bind, Option.bind_some,
      Option.map_some]
  obtain ⟨c, t, hcons, hgap, hbracket, hcomment, hfeed, hreturn⟩ := h.exists_cons
  rw [hform]
  rw [hcons, List.cons_append] at hassignment ⊢
  have hline : finishLine? (c :: (t ++ ' ' :: '=' :: ' ' :: (v ++ '\n' :: rest))) = none := by
    rw [finishLine?, skip_cons hgap]
    split
    case h_1 heq => exact absurd (List.cons.inj heq).1 hcomment
    case h_2 =>
      rw [lineEnd?]
      all_goals simp [hfeed, hreturn]
  rw [readLine?, skip_cons hgap]
  split
  case h_1 heq => exact absurd (List.cons.inj heq).1 hbracket
  case h_2 =>
    rw [hline]
    exact hassignment

/-- The same for a bare value. -/
theorem readLine?_bare {draft : Draft} {key run rest : Text} {v : Value} {ms : Members}
    (h : IsBareKey key) (hne : run ≠ []) (hrun : ∀ c ∈ run, isBare c = true)
    (hv : bareValue? run = some v)
    (hassign : atTable (assign v false .header [key]) draft.header draft.members = some ms) :
    readLine? draft (entryLine key run ++ rest) = some (⟨ms, draft.header⟩, rest) := by
  have hstart : ∀ c ∈ run.head?, isGap c = false := by
    intro c hc
    have hbare := hrun c (List.mem_of_head? hc)
    have hspace : c ≠ ' ' := ne_of_holds hbare (by decide)
    have htab : c ≠ '\t' := ne_of_holds hbare (by decide)
    simp [isGap, hspace, htab]
  exact readLine?_entryLine h hstart (readValue?_bare maxDepth hne hrun hv rest) hassign

theorem readLines?_nil (turns : Nat) (draft : Draft) :
    readLines? turns draft [] = some draft.members := by
  cases turns <;> rfl

theorem readLines?_cons {turns : Nat} {draft draft' : Draft} {t rest : Text} (hne : t ≠ [])
    (h : readLine? draft t = some (draft', rest)) :
    readLines? (turns + 1) draft t = readLines? turns draft' rest := by
  obtain ⟨c, t, rfl⟩ := List.exists_cons_of_ne_nil hne
  simp only [readLines?, h, Option.bind_eq_bind, Option.bind_some]

end Motion.Toml
