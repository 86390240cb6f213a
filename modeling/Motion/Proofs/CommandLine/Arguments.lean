/-
# What arguments say

A list of arguments is read in turns of one or two, and the reading ends early where help is asked
for or something is wrong.  Here the turns are made visible: an `Argument` is what one of them
takes, with the words it is written in, and a list of arguments is read as long as it says such
things, at most one of them a program (`Arguments.read_write`).  What stands behind them decides the
answer (`Arguments.exists_ends`).  So help is given exactly if it is asked for behind a list of that
kind (`ofArguments_eq_help_iff`).
-/
import Mathlib.Data.List.Basic
import Motion.CommandLine.Invocation

namespace Motion

/-! ## 1. Turns -/

/-- What one turn of the reader takes. -/
inductive Argument where
  | config (path : Text)
  | steps
  | program (path : Text)
  deriving Repr, DecidableEq

namespace Argument

/-- The words of an argument. -/
def write : Argument → List Text
  | config path => ["--config".toList, path]
  | steps => ["--steps".toList]
  | program path => [path]

/-- A program is no option and no request for help; the path of a configuration may be. -/
def IsProper : Argument → Prop
  | program path => isOption path = false ∧ path ≠ "-h".toList
  | _ => True

/-- A program is none of the words that the reader knows. -/
theorem IsProper.ne_words {path : Text} (h : (program path).IsProper) :
    path ≠ "--config".toList ∧ path ≠ "--steps".toList ∧
      ¬(path = "-h".toList ∨ path = "--help".toList) ∧ ¬isOption path = true := by
  obtain ⟨hoption, hshort⟩ := h
  refine ⟨?_, ?_, ?_, by rw [hoption]; exact Bool.false_ne_true⟩
  · rintro rfl
    exact absurd hoption (by decide)
  · rintro rfl
    exact absurd hoption (by decide)
  · rintro (rfl | rfl)
    · exact hshort rfl
    · exact absurd hoption (by decide)

/-- The path of a program. -/
def program? : Argument → Option Text
  | program path => some path
  | _ => none

end Argument

/-- A request for help. -/
def IsHelp (arg : Text) : Prop := arg = "-h".toList ∨ arg = "--help".toList

/-- An option that the reader does not know. -/
structure IsUnknown (arg : Text) : Prop where
  isOption : isOption arg = true
  ne_config : arg ≠ "--config".toList
  ne_steps : arg ≠ "--steps".toList
  not_help : ¬IsHelp arg

namespace Arguments

/-- What the arguments so far ask for, with one more. -/
def say (a : Arguments) : Argument → Arguments
  | .config path => { a with config := some path }
  | .steps => { a with steps := true }
  | .program path => { a with program := some path }

/-- The programs that were named. -/
def programs (a : Arguments) (said : List Argument) : List Text :=
  a.program.toList ++ said.filterMap Argument.program?

/-- One argument more can be said: it is a proper one, and no second program. -/
structure Allows (a : Arguments) (said : List Argument) : Prop where
  proper : ∀ u ∈ said, u.IsProper
  one : (a.programs said).length ≤ 1

theorem Allows.nil {a : Arguments} : a.Allows [] where
  proper := by simp
  one := by cases h : a.program <;> simp [programs, h]

theorem Allows.program_eq_none {a : Arguments} {path : Text} {said : List Argument}
    (h : a.Allows (.program path :: said)) : a.program = none := by
  have hone := h.one
  cases hp : a.program with
  | none => rfl
  | some p => simp [programs, Argument.program?, hp] at hone

theorem Allows.tail {a : Arguments} {u : Argument} {said : List Argument}
    (h : a.Allows (u :: said)) : (a.say u).Allows said where
  proper v hv := h.proper v (List.mem_cons_of_mem u hv)
  one := by
    have hone := h.one
    cases u with
    | config path => exact hone
    | steps => exact hone
    | program path =>
      rw [programs, h.program_eq_none] at hone
      exact hone

theorem Allows.cons {a : Arguments} {u : Argument} {said : List Argument} (hu : u.IsProper)
    (hp : ∀ path, u = .program path → a.program = none) (h : (a.say u).Allows said) :
    a.Allows (u :: said) where
  proper := by
    intro v hv
    rcases List.mem_cons.mp hv with rfl | hv
    · exact hu
    · exact h.proper v hv
  one := by
    have hone := h.one
    cases u with
    | config path => exact hone
    | steps => exact hone
    | program path =>
      rw [programs, hp path rfl]
      exact hone

/-! ## 2. Reading turn by turn -/

/-- A program that may be named is read as one. -/
theorem read_program {a : Arguments} {path : Text} (hproper : (Argument.program path).IsProper)
    (hp : a.program = none) (rest : List Text) :
    a.read (path :: rest) = (a.say (.program path)).read rest := by
  obtain ⟨hconfig, hsteps, hhelp, hoption⟩ := hproper.ne_words
  have hfirst : ¬ a.program.isSome = true := by rw [hp]; exact Bool.false_ne_true
  rw [Arguments.read.eq_def]
  simp only [if_neg hconfig, if_neg hsteps, if_neg hhelp, if_neg hoption, if_neg hfirst]
  rfl

theorem read_steps (a : Arguments) (rest : List Text) :
    a.read ("--steps".toList :: rest) = (a.say .steps).read rest := by
  have hne : "--steps".toList ≠ "--config".toList := by decide
  rw [Arguments.read.eq_def]
  simp only [if_neg hne, if_true]
  rfl

/-- **Arguments are read as they are written**, one after the other. -/
theorem read_write {a : Arguments} {said : List Argument} (h : a.Allows said) (rest : List Text) :
    a.read (said.flatMap Argument.write ++ rest) = (said.foldl say a).read rest := by
  induction said generalizing a with
  | nil => rfl
  | cons u said ih =>
    rw [List.flatMap_cons, List.append_assoc, List.foldl_cons, ← ih h.tail]
    cases u with
    | config path => rfl
    | steps => exact read_steps a _
    | program path => exact read_program (h.proper _ List.mem_cons_self) h.program_eq_none _

theorem read_help {arg : Text} (h : IsHelp arg) (a : Arguments) (rest : List Text) :
    a.read (arg :: rest) = .ok .help := by
  have hconfig : arg ≠ "--config".toList := by rcases h with rfl | rfl <;> decide
  have hsteps : arg ≠ "--steps".toList := by rcases h with rfl | rfl <;> decide
  rw [Arguments.read.eq_def]
  simp only [if_neg hconfig, if_neg hsteps]
  exact if_pos h

/-! ## 3. Where the reading ends -/

/-- How the reading ends behind arguments that could be read: there are no more, or the next one
cannot be read. -/
inductive Ends (a : Arguments) : List Text → Except ArgumentFault Invocation → Prop where
  | complete {program : Text} (h : a.program = some program) :
      Ends a [] (.ok (.simulate program a.config a.steps))
  | noProgram (h : a.program = none) : Ends a [] (.error .noProgram)
  | configWithoutPath : Ends a ["--config".toList] (.error .configWithoutPath)
  | help {arg : Text} {rest : List Text} (h : IsHelp arg) : Ends a (arg :: rest) (.ok .help)
  | unknownOption {arg : Text} {rest : List Text} (h : IsUnknown arg) :
      Ends a (arg :: rest) (.error (.unknownOption arg))
  | secondProgram {path : Text} {rest : List Text} (hproper : (Argument.program path).IsProper)
      (h : a.program.isSome) : Ends a (path :: rest) (.error .secondProgram)

theorem Ends.read_eq {a : Arguments} {rest : List Text} {answer : Except ArgumentFault Invocation}
    (h : a.Ends rest answer) : a.read rest = answer := by
  cases h with
  | complete hp => simp only [Arguments.read, hp]
  | noProgram hp => simp only [Arguments.read, hp]
  | configWithoutPath => rfl
  | help harg => exact read_help harg a _
  | unknownOption harg =>
    have hhelp := harg.not_help
    unfold IsHelp at hhelp
    rw [Arguments.read.eq_def]
    simp only [if_neg harg.ne_config, if_neg harg.ne_steps, if_neg hhelp, if_pos harg.isOption]
  | secondProgram hproper hp =>
    obtain ⟨hconfig, hsteps, hhelp, hoption⟩ := hproper.ne_words
    rw [Arguments.read.eq_def]
    simp only [if_neg hconfig, if_neg hsteps, if_neg hhelp, if_neg hoption, if_pos hp]

/-- **Every list of arguments ends somewhere**, behind those that can be read, and that decides the
answer. -/
theorem exists_ends (a : Arguments) (args : List Text) :
    ∃ said rest, args = said.flatMap Argument.write ++ rest ∧ a.Allows said ∧
      (said.foldl say a).Ends rest (a.read args) := by
  -- one more argument in front of those that the rest says
  have hturn {a : Arguments} {u : Argument} {args : List Text}
      {answer : Except ArgumentFault Invocation} (hu : u.IsProper)
      (hp : ∀ path, u = .program path → a.program = none)
      (hrest : ∃ said rest, args = said.flatMap Argument.write ++ rest ∧ (a.say u).Allows said ∧
        (said.foldl say (a.say u)).Ends rest answer) :
      ∃ said rest, u.write ++ args = said.flatMap Argument.write ++ rest ∧ a.Allows said ∧
        (said.foldl say a).Ends rest answer := by
    obtain ⟨said, rest, rfl, hsaid, hends⟩ := hrest
    exact ⟨u :: said, rest, by simp, hsaid.cons hu hp, hends⟩
  have hproper {path : Text} (hhelp : ¬(path = "-h".toList ∨ path = "--help".toList))
      (hoption : ¬isOption path = true) : (Argument.program path).IsProper :=
    ⟨by simpa using hoption, fun hshort => hhelp (Or.inl hshort)⟩
  fun_induction Arguments.read a args with
  | case1 a program hp => exact ⟨[], [], rfl, .nil, .complete hp⟩
  | case2 a hp => exact ⟨[], [], rfl, .nil, .noProgram hp⟩
  | case3 => exact ⟨[], _, rfl, .nil, .configWithoutPath⟩
  | case4 a path rest ih => exact hturn (u := .config path) trivial (by simp) ih
  | case5 a rest _ ih => exact hturn (u := .steps) trivial (by simp) ih
  | case6 a arg rest _ _ hhelp => exact ⟨[], _, rfl, .nil, .help hhelp⟩
  | case7 a arg rest hconfig hsteps hhelp hoption =>
    exact ⟨[], _, rfl, .nil, .unknownOption ⟨hoption, hconfig, hsteps, hhelp⟩⟩
  | case8 a arg rest _ _ hhelp hoption hp =>
    exact ⟨[], _, rfl, .nil, .secondProgram (hproper hhelp hoption) hp⟩
  | case9 a path rest _ _ hhelp hoption hp ih =>
    exact hturn (u := .program path) (hproper hhelp hoption) (by simpa using hp) ih

end Arguments

/-- **Help is given exactly if it is asked for before anything is wrong**: behind complete arguments
of which at most one is a program. -/
theorem ofArguments_eq_help_iff {args : List Text} :
    Invocation.ofArguments args = .ok .help ↔
      ∃ said arg rest, args = said.flatMap Argument.write ++ arg :: rest ∧
        Arguments.Allows {} said ∧ IsHelp arg := by
  constructor
  · intro h
    obtain ⟨said, rest, rfl, hsaid, hends⟩ := Arguments.exists_ends {} args
    have hhelp : (said.foldl Arguments.say {}).Ends rest (.ok .help) := h ▸ hends
    cases hhelp with
    | help harg => exact ⟨said, _, _, rfl, hsaid, harg⟩
  · rintro ⟨said, arg, rest, rfl, hsaid, hhelp⟩
    rw [Invocation.ofArguments, Arguments.read_write hsaid, Arguments.read_help hhelp]

end Motion
