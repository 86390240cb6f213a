/-
# Reading TOML tables that were written

A line that gives a new key its value adds an entry at the end of the current table, and a header
that is new adds a table at the end of the whole one, which is then the current one.  Adding at the
end of the current table looks the same for both (`Reads.lines`), so a text of lines and headers is
read as the entries and tables it was written from, as long as no key comes twice.
-/
import Motion.Proofs.Toml.Lines

namespace Motion.Toml

/-! ## 1. Tables that grow -/

section Tables

variable {key : Text} {ms : Members} (h : key ∉ ms.map Prod.fst)
include h

theorem lookup_of_notMem : ms.lookup key = none := by
  refine List.lookup_eq_none_iff.mpr fun entry hentry => ?_
  rw [bne_iff_ne]
  rintro rfl
  exact h (List.mem_map_of_mem hentry)

theorem lookup_concat (v : Value) : (ms ++ [(key, v)]).lookup key = some v := by
  rw [List.lookup_append, lookup_of_notMem h, Option.none_or, List.lookup_cons_self]

theorem put_of_notMem (v : Value) : put key v ms = ms ++ [(key, v)] := by
  induction ms with
  | nil => rfl
  | cons entry ms ih =>
    rw [List.map_cons, List.mem_cons, not_or] at h
    rw [put, if_neg (by simpa using Ne.symm h.1), ih h.2, List.cons_append]

theorem put_concat (v v' : Value) : put key v' (ms ++ [(key, v)]) = ms ++ [(key, v')] := by
  induction ms with
  | nil => simp [put]
  | cons entry ms ih =>
    rw [List.map_cons, List.mem_cons, not_or] at h
    rw [List.cons_append, put, if_neg (by simpa using Ne.symm h.1), ih h.2, List.cons_append]

theorem assign_of_notMem (v : Value) :
    assign v false .header [key] ms = some (ms ++ [(key, v)]) := by
  rw [assign, lookup_of_notMem h, put_of_notMem h]
  rfl

theorem openTable_of_notMem : openTable [key] ms = some (ms ++ [(key, .table .header [])]) := by
  rw [openTable, atHeader, lookup_of_notMem h, Option.map_some, put_of_notMem h]

/-- The last table of the whole one, changed. -/
theorem atTable_concat (change : Members → Option Members) (below : Members) :
    atTable change [key] (ms ++ [(key, .table .header below)]) =
      (change below).map fun below => ms ++ [(key, .table .header below)] := by
  simp only [atTable, lookup_concat h, through, Option.map_map, Function.comp_def, put_concat h]

end Tables

/-! ## 2. Texts that are read -/

/-- The lines of a text are read as a table, from a draft on and however many turns there are beyond
its length. -/
def Reads (draft : Draft) (t : Text) (ms : Members) : Prop :=
  ∀ turns, t.length < turns → readLines? turns draft t = some ms

theorem Reads.nil (draft : Draft) : Reads draft [] draft.members :=
  fun turns _ => readLines?_nil turns draft

theorem Reads.line {draft draft' : Draft} {line rest : Text} {ms : Members} (hne : line ≠ [])
    (hline : readLine? draft (line ++ rest) = some (draft', rest)) (h : Reads draft' rest ms) :
    Reads draft (line ++ rest) ms := by
  intro turns hturns
  obtain ⟨turns, rfl⟩ := Nat.exists_eq_succ_of_ne_zero (Nat.ne_zero_of_lt hturns)
  have hlength : 0 < line.length := List.length_pos_iff.mpr hne
  rw [List.length_append] at hturns
  rw [readLines?_cons (by simp [hne]) hline]
  exact h turns (by omega)

theorem Reads.read? {t : Text} {ms : Members} (h : Reads ⟨[], []⟩ t ms)
    (hmark : t.head? ≠ some (Char.ofNat 0xFEFF)) : read? t = some ms := by
  rw [Toml.read?, beq_eq_false_iff_ne.mpr hmark, if_neg Bool.false_ne_true]
  exact h _ (Nat.lt_succ_self _)

/-- A line that gives a key its value, wherever it stands. -/
structure IsLine (line key : Text) (v : Value) : Prop where
  ne_nil : line ≠ []
  readLine? : ∀ {draft : Draft} {rest : Text} {ms : Members},
    atTable (assign v false .header [key]) draft.header draft.members = some ms →
      readLine? draft (line ++ rest) = some (⟨ms, draft.header⟩, rest)

/-- Lines that give keys their values. -/
inductive Writes : Text → Members → Prop where
  | nil : Writes [] []
  | cons {line key t : Text} {v : Value} {ms : Members} (hline : IsLine line key v)
      (h : Writes t ms) : Writes (line ++ t) ((key, v) :: ms)

theorem Writes.append {t t' : Text} {ms ms' : Members} (h : Writes t ms) (h' : Writes t' ms') :
    Writes (t ++ t') (ms ++ ms') := by
  induction h with
  | nil => exact h'
  | cons hline _ ih =>
    rw [List.append_assoc]
    exact .cons hline ih

/-- **Lines add their entries to the current table**, wherever in the whole one it is. -/
theorem Reads.lines (place : Members → Members) {header : List Text}
    (hplace : ∀ change ms, atTable change header (place ms) = (change ms).map place) {t : Text}
    {entries : Members} (h : Writes t entries) (ms : Members)
    (hnodup : ((ms ++ entries).map Prod.fst).Nodup) {rest : Text} {whole : Members}
    (hrest : Reads ⟨place (ms ++ entries), header⟩ rest whole) :
    Reads ⟨place ms, header⟩ (t ++ rest) whole := by
  induction h generalizing ms with
  | nil => simpa using hrest
  | @cons line key t v entries hline _ ih =>
    have hnew : key ∉ ms.map Prod.fst := by
      intro hmem
      rw [List.map_append, List.map_cons] at hnodup
      exact (List.nodup_append.mp hnodup).2.2 key hmem key List.mem_cons_self rfl
    have hassoc : ms ++ (key, v) :: entries = ms ++ [(key, v)] ++ entries := by simp
    rw [hassoc] at hnodup hrest
    rw [List.append_assoc]
    refine Reads.line hline.ne_nil (hline.readLine? ?_) (ih _ hnodup hrest)
    rw [hplace, assign_of_notMem hnew, Option.map_some]

/-- **A header and its lines** add a table. -/
theorem Reads.section {name : Text} {base : Members} {header : List Text} (hname : IsBareKey name)
    (hnew : name ∉ base.map Prod.fst) {t : Text} {entries : Members} (h : Writes t entries)
    (hnodup : (entries.map Prod.fst).Nodup) {rest : Text} {whole : Members}
    (hrest : Reads ⟨base ++ [(name, .table .header entries)], [name]⟩ rest whole) :
    Reads ⟨base, header⟩ (headerLine name ++ (t ++ rest)) whole := by
  refine Reads.line (by simp [headerLine])
    (readLine?_headerLine hname (openTable_of_notMem hnew)) ?_
  exact Reads.lines (fun below => base ++ [(name, .table .header below)]) (atTable_concat hnew) h []
    hnodup hrest

end Motion.Toml
