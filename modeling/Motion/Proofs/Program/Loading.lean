/-
# Loading as a function of the numbered lines

`Loader.feedAll` carries three things along the lines of a program: the target of the last command,
the commands and the diagnostics.  This module states what comes out without the state.  The lines
on which code is left are numbered first (`codeLines`); their commands are then a recursion that
hands on nothing but the target (`readLines`), and their warnings are those of each line
(`warningsOf`).  `feedAll_eq` is the equation, from any state, and `ofText_eq` the one for a text.

What the two sides of a comparison of programs have to agree on is therefore a list of numbered
lines.  The laws of that list follow: it only depends on what is left of each line
(`codeLines_congr`), two lists of lines are numbered one behind the other (`codeLines_append`), and
starting at another number shifts every number (`codeLines_shift`).
-/
import Mathlib.Algebra.Group.Nat.Defs
import Mathlib.Data.List.Basic
import Motion.Program

namespace Motion

/-! ## 1. Numbered lines -/

/-- The texts that are there, each with the number of its place. -/
def numbered : UInt32 → List (Option Text) → List (UInt32 × Text)
  | _, [] => []
  | line, none :: rest => numbered (line + 1) rest
  | line, some text :: rest => (line, text) :: numbered (line + 1) rest

/-- The raw lines on which code is left, each with its number and cut down to its code. -/
def codeLines (comment : Char) (line : UInt32) (raws : List Text) : List (UInt32 × Text) :=
  numbered line (raws.map (codePart? comment))

/-- A comment is cut off from its first character on, whatever follows it. -/
theorem codePart?_comment (comment : Char) (l t : Text) :
    codePart? comment (l ++ comment :: t) = codePart? comment l := by
  have htake : (l ++ comment :: t).takeWhile (· != comment) = l.takeWhile (· != comment) := by
    rw [List.takeWhile_append]
    split
    · rename_i hall
      rw [(List.takeWhile_prefix _).eq_of_length hall, List.takeWhile_cons, if_neg (by simp),
        List.append_nil]
    · rfl
  rw [codePart?, htake, codePart?]

theorem codeLines_cons (comment : Char) (line : UInt32) (raw : Text) (rest : List Text) :
    codeLines comment line (raw :: rest) =
      ((codePart? comment raw).map (line, ·)).toList ++ codeLines comment (line + 1) rest := by
  cases h : codePart? comment raw <;> simp [codeLines, numbered, h]

/-- Raw lines with the same code have the same numbered lines. -/
theorem codeLines_congr {comment : Char} {raws raws' : List Text}
    (h : raws.map (codePart? comment) = raws'.map (codePart? comment)) (line : UInt32) :
    codeLines comment line raws = codeLines comment line raws' := by
  rw [codeLines, h, codeLines]

/-- **The numbering goes on behind the first lines**, whether code is left on them or not. -/
theorem codeLines_append (comment : Char) (line : UInt32) (raws raws' : List Text) :
    codeLines comment line (raws ++ raws') =
      codeLines comment line raws ++
        codeLines comment (line + UInt32.ofNat raws.length) raws' := by
  induction raws generalizing line with
  | nil => simp [codeLines, numbered]
  | cons raw rest ih =>
    have hline : line + 1 + UInt32.ofNat rest.length
        = line + UInt32.ofNat (raw :: rest).length := by
      rw [List.length_cons, Nat.add_comm rest.length 1, UInt32.ofNat_add, UInt32.add_assoc]
      rfl
    rw [List.cons_append, codeLines_cons, codeLines_cons, ih, hline, List.append_assoc]

/-- A numbering that starts later gives greater numbers. -/
theorem codeLines_shift (comment : Char) (line k : UInt32) (raws : List Text) :
    codeLines comment (line + k) raws =
      (codeLines comment line raws).map fun e => (e.1 + k, e.2) := by
  induction raws generalizing line with
  | nil => rfl
  | cons raw rest ih =>
    have hline : line + k + 1 = line + 1 + k := by
      rw [UInt32.add_assoc, UInt32.add_comm k 1, ← UInt32.add_assoc]
    rw [codeLines_cons, codeLines_cons, hline, ih, List.map_append]
    cases codePart? comment raw <;> rfl

/-- Every number is the first one, counted on by the place of its line. -/
theorem mem_codeLines {comment : Char} {line : UInt32} {raws : List Text} {e : UInt32 × Text}
    (h : e ∈ codeLines comment line raws) :
    ∃ n < raws.length, e.1 = line + UInt32.ofNat n := by
  induction raws generalizing line with
  | nil => simp [codeLines, numbered] at h
  | cons raw rest ih =>
    rw [codeLines_cons, List.mem_append] at h
    rcases h with h | h
    · cases hcode : codePart? comment raw with
      | none => simp [hcode] at h
      | some text =>
        simp only [hcode, Option.map_some, Option.toList_some, List.mem_singleton] at h
        exact ⟨0, by simp, by simp [h]⟩
    · obtain ⟨n, hn, heq⟩ := ih h
      refine ⟨n + 1, by simpa using hn, ?_⟩
      rw [heq, Nat.add_comm n 1, UInt32.ofNat_add, UInt32.add_assoc]
      rfl

/-- Of fewer than 2^32 lines, each has the number of its place, counted from 1. -/
theorem toNat_of_mem_codeLines {comment : Char} {raws : List Text} {e : UInt32 × Text}
    (hcount : raws.length < 2 ^ 32) (h : e ∈ codeLines comment 1 raws) :
    0 < e.1.toNat ∧ e.1.toNat ≤ raws.length := by
  obtain ⟨n, hn, heq⟩ := mem_codeLines h
  have hone : (1 : UInt32).toNat = 1 := rfl
  rw [heq, UInt32.toNat_add, UInt32.toNat_ofNat', hone]
  omega

/-! ## 2. The commands and the warnings of numbered lines -/

variable {α : Type}

/-- The target that some commands leave behind, from the one before them. -/
def lastTarget (carried : Point α) (commands : List (Command α)) : Point α :=
  (commands.getLast?.map Command.target).getD carried

theorem lastTarget_cons (carried : Point α) (c : Command α) (cs : List (Command α)) :
    lastTarget carried (c :: cs) = lastTarget c.target cs := by
  cases cs <;> simp [lastTarget, List.getLast?_cons]

/-- The command, standing somewhere else. -/
def Command.placed (line : UInt32) (source : Text) (c : Command α) : Command α :=
  { c with line := line, source := source }

/-- No word of a line says where the line stands, or changes how it reads. -/
theorem foldl_set_placed (entries : List (Entry α)) (line : UInt32) (source : Text)
    (c : Command α) :
    entries.foldl Command.set (c.placed line source) =
      (entries.foldl Command.set c).placed line source := by
  have hset (c : Command α) (e : Entry α) :
      (c.placed line source).set e = (c.set e).placed line source := by
    cases e with
    | code code => rfl
    | value f v => cases f <;> rfl
  exact List.foldl_hom (Command.placed line source) hset

variable [Scalar α]

/-- **A line is read by its entries.**  Its number and its text go into the command as they are. -/
theorem readLine_eq_placed (mode : CoordinateMode) (carried : Point α) (line : UInt32)
    (text : Text) :
    readLine mode carried line text =
      ((entries text).foldl Command.set (.blank mode carried 0 [])).placed line text :=
  foldl_set_placed (entries text) line text (.blank mode carried 0 [])

theorem line_readLine (mode : CoordinateMode) (carried : Point α) (line : UInt32) (text : Text) :
    (readLine mode carried line text).line = line := by
  rw [readLine_eq_placed]
  rfl

theorem source_readLine (mode : CoordinateMode) (carried : Point α) (line : UInt32) (text : Text) :
    (readLine mode carried line text).source = text := by
  rw [readLine_eq_placed]
  rfl

/-- The commands of numbered lines, the first of them read after a line with the given target. -/
def readLines (mode : CoordinateMode) : Point α → List (UInt32 × Text) → List (Command α)
  | _, [] => []
  | carried, (line, text) :: rest =>
    readLine mode carried line text :: readLines mode (readLine mode carried line text).target rest

/-- The warnings of numbered lines. -/
def warningsOf (α : Type) [Scalar α] (lines : List (UInt32 × Text)) : List Diagnostic :=
  lines.flatMap fun e => lineWarnings α e.1 e.2

/-- **The second part is read after the target that the first one leaves.** -/
theorem readLines_append (mode : CoordinateMode) (carried : Point α)
    (lines lines' : List (UInt32 × Text)) :
    readLines mode carried (lines ++ lines') =
      readLines mode carried lines ++
        readLines mode (lastTarget carried (readLines mode carried lines)) lines' := by
  induction lines generalizing carried with
  | nil => rfl
  | cons e rest ih => simp only [List.cons_append, readLines, ih, lastTarget_cons]

/-- Resetting coordinates forgets the line before. -/
theorem readLines_reset (carried carried' : Point α) (lines : List (UInt32 × Text)) :
    readLines .reset carried lines = readLines .reset carried' lines := by
  cases lines <;> rfl

/-- Every command stands on one of the lines. -/
theorem line_of_mem_readLines {mode : CoordinateMode} {carried : Point α}
    {lines : List (UInt32 × Text)} {c : Command α} (h : c ∈ readLines mode carried lines) :
    ∃ e ∈ lines, c.line = e.1 := by
  induction lines generalizing carried with
  | nil => simp [readLines] at h
  | cons e rest ih =>
    rcases List.mem_cons.mp h with rfl | h
    · exact ⟨e, List.mem_cons_self, line_readLine mode carried e.1 e.2⟩
    · obtain ⟨e', he', hline⟩ := ih h
      exact ⟨e', List.mem_cons_of_mem _ he', hline⟩

/-- Every warning is about a word of one of the lines. -/
theorem exists_of_mem_warningsOf {lines : List (UInt32 × Text)} {d : Diagnostic}
    (h : d ∈ warningsOf α lines) :
    ∃ e ∈ lines, ∃ word reason, d = .badWord e.1 e.2 word reason := by
  obtain ⟨e, he, hd⟩ := List.mem_flatMap.mp h
  obtain ⟨word, -, hword⟩ := List.mem_filterMap.mp hd
  refine ⟨e, he, word, ?_⟩
  unfold wordWarning? at hword
  split at hword
  · exact ⟨_, (Option.some.inj hword).symm⟩
  · cases hword

/-! ## 3. The loader without its state -/

namespace Loader

theorem feed_eq (o : Options) (s : Loader α) (line : UInt32) (raw : Text) :
    s.feed o line raw =
      match codePart? o.comment raw with
      | none => s
      | some text =>
        ⟨(readLine o.mode s.carried line text).target,
          s.commands.push (readLine o.mode s.carried line text),
          s.diagnostics ++ (lineWarnings α line text).toArray⟩ := by
  unfold feed
  cases codePart? o.comment raw with
  | none => rfl
  | some text =>
    have hlist : s.diagnostics ++ lineWarnings α line text
        = s.diagnostics ++ (lineWarnings α line text).toArray := Array.ext' (by simp)
    simp only [hlist]

/-- **What feeding lines comes to.**  The state before them matters only through its target; its
commands and diagnostics stay in front. -/
theorem feedAll_eq (o : Options) (s : Loader α) (line : UInt32) (raws : List Text) :
    s.feedAll o line raws =
      let lines := codeLines o.comment line raws
      let commands := readLines o.mode s.carried lines
      ⟨lastTarget s.carried commands, s.commands ++ commands.toArray,
        s.diagnostics ++ (warningsOf α lines).toArray⟩ := by
  induction raws generalizing s line with
  | nil => simp [feedAll, codeLines, numbered, readLines, lastTarget, warningsOf]
  | cons raw rest ih =>
    rw [feedAll, ih, feed_eq, codeLines_cons]
    cases codePart? o.comment raw with
    | none => simp
    | some text =>
      simp [readLines, warningsOf, lastTarget_cons]

end Loader

/-- The program of numbered lines, the first of them read after a line with the given target. -/
def Program.ofLines (mode : CoordinateMode) (carried : Point α) (lines : List (UInt32 × Text)) :
    Program α :=
  ⟨readLines mode carried lines, warningsOf α lines⟩

theorem Loader.program_feedAll (o : Options) (carried : Point α) (line : UInt32)
    (raws : List Text) :
    (Loader.feedAll o ⟨carried, #[], #[]⟩ line raws).program =
      .ofLines o.mode carried (codeLines o.comment line raws) := by
  simp [feedAll_eq, program, Program.ofLines]

/-- **The program of a text is that of its numbered lines**, from the origin. -/
theorem Program.ofText_eq (o : Options) (t : Text) :
    (ofText o t : Program α) = .ofLines o.mode .origin (codeLines o.comment 1 t.lines) :=
  Loader.program_feedAll o .origin 1 t.lines

end Motion
