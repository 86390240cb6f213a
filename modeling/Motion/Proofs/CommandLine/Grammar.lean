/-
# The grammar of arguments

The words of a command line are read one or two at a time, and a word may be anything: the path of a
configuration may look like an option, and the reader only knows it from the word before it.  This
module says what lists of words are accepted without reading them.  A list has to fall into units,
of which one is a program (`IsCommand`), and it does so in one way at most (`flatMap_write_inj`).

What an accepted list says depends little on the order of its units.  There is one program, and
`--steps` says the same however often and wherever it is said; only of several configurations the
last one counts (`Arguments.foldl_say`).  So the order matters to that alone, and
`arguments_are_units` says all of this together, and what is wrong with every other list.

Help is left out here: where it is asked for, what stands behind it is not read.
-/
import Mathlib.Data.List.Induction
import Motion.Proofs.CommandLine.Arguments

namespace Motion

/-! ## 1. Units -/

/-- The path of a configuration. -/
def Argument.config? : Argument → Option Text
  | config path => some path
  | _ => none

/-- The words of these units are a command: no program looks like an option, and there is exactly
one. -/
structure IsCommand (units : List Argument) : Prop where
  isOption_program : ∀ path, .program path ∈ units → isOption path = false
  one : ∃ program, units.filterMap Argument.program? = [program]

/-- The order of the units makes no difference to this. -/
theorem IsCommand.perm {units units' : List Argument} (h : IsCommand units)
    (hperm : units'.Perm units) : IsCommand units' where
  isOption_program path hpath := h.isOption_program path (hperm.subset hpath)
  one := by
    obtain ⟨program, hone⟩ := h.one
    exact ⟨program, List.perm_singleton.mp (hone ▸ hperm.filterMap _)⟩

/-- **Words fall into units in one way at most**, if no program looks like an option. -/
theorem flatMap_write_inj {units units' : List Argument}
    (h : ∀ path, .program path ∈ units → isOption path = false)
    (h' : ∀ path, .program path ∈ units' → isOption path = false)
    (heq : units.flatMap Argument.write = units'.flatMap Argument.write) : units = units' := by
  -- the first word says what unit it starts
  have hfirst {u u' : Argument} {rest rest' : List Argument}
      (h : ∀ path, .program path ∈ u :: rest → isOption path = false)
      (h' : ∀ path, .program path ∈ u' :: rest' → isOption path = false)
      (heq : (u :: rest).flatMap Argument.write = (u' :: rest').flatMap Argument.write) :
      u = u' ∧ rest.flatMap Argument.write = rest'.flatMap Argument.write := by
    have hoption : isOption "--config".toList = true ∧ isOption "--steps".toList = true := by decide
    have hne : "--config".toList ≠ "--steps".toList := by decide
    cases u <;> cases u' <;> simp_all [Argument.write]
  induction units generalizing units' with
  | nil =>
    cases units' with
    | nil => rfl
    | cons u' rest' => cases u' <;> simp [Argument.write] at heq
  | cons u rest ih =>
    cases units' with
    | nil => cases u <;> simp [Argument.write] at heq
    | cons u' rest' =>
      obtain ⟨rfl, hrest⟩ := hfirst h h' heq
      have htail {rest : List Argument}
          (h : ∀ path, .program path ∈ u :: rest → isOption path = false) :
          ∀ path, .program path ∈ rest → isOption path = false :=
        fun path hpath => h path (List.mem_cons_of_mem u hpath)
      rw [ih (htail h) (htail h') hrest]

/-! ## 2. What units say -/

namespace Arguments

/-- **What has been said after some units**: the last program, the last configuration, and whether
there were steps. -/
theorem foldl_say (a : Arguments) (said : List Argument) :
    said.foldl say a =
      { program := (said.filterMap Argument.program?).getLast?.or a.program
        config := (said.filterMap Argument.config?).getLast?.or a.config
        steps := a.steps || decide (.steps ∈ said) } := by
  induction said using List.reverseRecOn with
  | nil => simp
  | append_singleton said u ih =>
    rw [List.foldl_concat, ih]
    cases u <;> simp [say, Argument.program?, Argument.config?, List.filterMap_append]

end Arguments

/-- The words of a command that do not ask for help. -/
theorem IsCommand.allows {units : List Argument} (h : IsCommand units)
    (hhelp : ∀ arg ∈ units.flatMap Argument.write, ¬IsHelp arg) : Arguments.Allows {} units where
  proper := by
    intro u hu
    cases u with
    | config path => trivial
    | steps => trivial
    | program path =>
      have hword : path ∈ units.flatMap Argument.write :=
        List.mem_flatMap.mpr ⟨_, hu, List.mem_singleton_self path⟩
      exact ⟨h.isOption_program path hu, fun hshort => hhelp path hword (Or.inl hshort)⟩
  one := by
    obtain ⟨program, hone⟩ := h.one
    simp [Arguments.programs, hone]

/-- **A command is accepted**, and what it asks for. -/
theorem IsCommand.ofArguments_write {units : List Argument} (h : IsCommand units)
    (hhelp : ∀ arg ∈ units.flatMap Argument.write, ¬IsHelp arg) {program : Text}
    (hone : units.filterMap Argument.program? = [program]) :
    Invocation.ofArguments (units.flatMap Argument.write) =
      .ok (.simulate program (units.filterMap Argument.config?).getLast?
        (decide (.steps ∈ units))) := by
  have hread := Arguments.read_write (h.allows hhelp) []
  rw [List.append_nil, Arguments.foldl_say, hone] at hread
  rw [Invocation.ofArguments, hread]
  simp [Arguments.read]

/-! ## 3. What is wrong with other lists -/

/-- What is wrong with arguments: what follows those that can be read cannot be read, or there is no
program among them. -/
def IsWrong (args : List Text) : ArgumentFault → Prop
  | .configWithoutPath => ∃ said, Arguments.Allows {} said ∧
      args = said.flatMap Argument.write ++ ["--config".toList]
  | .unknownOption arg => ∃ said rest, Arguments.Allows {} said ∧ IsUnknown arg ∧
      args = said.flatMap Argument.write ++ arg :: rest
  | .secondProgram => ∃ said path rest, Arguments.Allows {} said ∧
      said.filterMap Argument.program? ≠ [] ∧ (Argument.program path).IsProper ∧
      args = said.flatMap Argument.write ++ path :: rest
  | .noProgram => ∃ said, Arguments.Allows {} said ∧ said.filterMap Argument.program? = [] ∧
      args = said.flatMap Argument.write

/-- The program after some units is the last one that they name. -/
theorem program_foldl_say (said : List Argument) :
    (said.foldl Arguments.say {}).program = (said.filterMap Argument.program?).getLast? := by
  rw [Arguments.foldl_say]
  exact Option.or_none

/-- **When arguments are refused**, and for what fault. -/
theorem ofArguments_eq_error_iff {args : List Text} {fault : ArgumentFault} :
    Invocation.ofArguments args = .error fault ↔ IsWrong args fault := by
  have hread {said : List Argument} {rest : List Text} (hsaid : Arguments.Allows {} said)
      (hends : (said.foldl Arguments.say {}).Ends rest (.error fault)) :
      Invocation.ofArguments (said.flatMap Argument.write ++ rest) = .error fault := by
    rw [Invocation.ofArguments, Arguments.read_write hsaid, hends.read_eq]
  constructor
  · intro h
    obtain ⟨said, rest, rfl, hsaid, hends⟩ := Arguments.exists_ends {} args
    have hfault : (said.foldl Arguments.say {}).Ends rest (.error fault) := h ▸ hends
    cases hfault with
    | noProgram hp =>
      rw [program_foldl_say, List.getLast?_eq_none_iff] at hp
      exact ⟨said, hsaid, hp, List.append_nil _⟩
    | configWithoutPath => exact ⟨said, hsaid, rfl⟩
    | unknownOption harg => exact ⟨said, _, hsaid, harg, rfl⟩
    | secondProgram hproper hp =>
      rw [program_foldl_say, List.getLast?_isSome] at hp
      exact ⟨said, _, _, hsaid, hp, hproper, rfl⟩
  · intro h
    cases fault with
    | configWithoutPath =>
      obtain ⟨said, hsaid, rfl⟩ := h
      exact hread hsaid .configWithoutPath
    | unknownOption arg =>
      obtain ⟨said, rest, hsaid, harg, rfl⟩ := h
      exact hread hsaid (.unknownOption harg)
    | secondProgram =>
      obtain ⟨said, path, rest, hsaid, hp, hproper, rfl⟩ := h
      refine hread hsaid (.secondProgram hproper ?_)
      rwa [program_foldl_say, List.getLast?_isSome]
    | noProgram =>
      obtain ⟨said, hsaid, hp, rfl⟩ := h
      rw [← List.append_nil (said.flatMap Argument.write)]
      refine hread hsaid (.noProgram ?_)
      rwa [program_foldl_say, List.getLast?_eq_none_iff]

/-! ## 4. The grammar -/

/-- **What is accepted is a command.** -/
theorem exists_isCommand {args : List Text} {program : Text} {config : Option Text} {steps : Bool}
    (h : Invocation.ofArguments args = .ok (.simulate program config steps)) :
    ∃ units, IsCommand units ∧ args = units.flatMap Argument.write := by
  obtain ⟨said, rest, rfl, hsaid, hends⟩ := Arguments.exists_ends {} args
  have hcomplete : (said.foldl Arguments.say {}).Ends rest
      (.ok (.simulate program config steps)) := h ▸ hends
  cases hcomplete with
  | complete hp =>
    refine ⟨said, ⟨fun path hpath => (hsaid.proper _ hpath).1, program, ?_⟩, List.append_nil _⟩
    -- at most one program was allowed, and the last one is there
    rw [program_foldl_say] at hp
    obtain ⟨before, hprograms⟩ := List.getLast?_eq_some_iff.mp hp
    have hone : (said.filterMap Argument.program?).length ≤ 1 := hsaid.one
    rw [hprograms, List.length_append, List.length_singleton] at hone
    rw [hprograms, List.length_eq_zero_iff.mp (Nat.le_zero.mp (Nat.le_of_add_le_add_right hone))]
    rfl

/-- **Arguments are accepted exactly if they are a command.**

Take any list of arguments that nowhere asks for help.  It is accepted if it falls into units: a
configuration with the argument behind it, whatever that is, a word for steps, or a program, which
does not look like an option, and exactly one of the last kind.  There is no other way to divide the
list like that.  What is asked for is that program, the configuration that was named last, and steps
if they were mentioned; and in any other order the units ask for the same, but for which
configuration is the last.

Every other list is refused.  Behind arguments that can be read it ends with a configuration without
a path, or goes on with an unknown option or a second program; or all of it can be read, and there
is no program. -/
theorem arguments_are_units {args : List Text} (hhelp : ∀ arg ∈ args, ¬IsHelp arg) :
    ((∃ program config steps,
        Invocation.ofArguments args = .ok (.simulate program config steps)) ↔
      ∃ units, IsCommand units ∧ args = units.flatMap Argument.write) ∧
    (∀ units, IsCommand units → args = units.flatMap Argument.write →
      (∀ units', IsCommand units' → args = units'.flatMap Argument.write → units' = units) ∧
      ∃ program, units.filterMap Argument.program? = [program] ∧
        Invocation.ofArguments args =
          .ok (.simulate program (units.filterMap Argument.config?).getLast?
            (decide (.steps ∈ units))) ∧
        ∀ units' : List Argument, units'.Perm units →
          Invocation.ofArguments (units'.flatMap Argument.write) =
            .ok (.simulate program (units'.filterMap Argument.config?).getLast?
              (decide (.steps ∈ units)))) ∧
    ((¬∃ units, IsCommand units ∧ args = units.flatMap Argument.write) →
      ∃ fault, Invocation.ofArguments args = .error fault) ∧
    ∀ fault, Invocation.ofArguments args = .error fault ↔ IsWrong args fault := by
  have haccepted {units : List Argument} (hunits : IsCommand units)
      (hargs : args = units.flatMap Argument.write) {program : Text}
      (hone : units.filterMap Argument.program? = [program]) {units' : List Argument}
      (hperm : units'.Perm units) :
      Invocation.ofArguments (units'.flatMap Argument.write) =
        .ok (.simulate program (units'.filterMap Argument.config?).getLast?
          (decide (.steps ∈ units))) := by
    have hwords : ∀ arg ∈ units'.flatMap Argument.write, ¬IsHelp arg := by
      intro arg harg
      rw [(hperm.flatMap_right Argument.write).mem_iff, ← hargs] at harg
      exact hhelp arg harg
    have hone' : units'.filterMap Argument.program? = [program] :=
      List.perm_singleton.mp (hone ▸ hperm.filterMap _)
    rw [(hunits.perm hperm).ofArguments_write hwords hone']
    simp only [hperm.mem_iff]
  refine ⟨⟨?accepted, ?command⟩, ?said, ?refused, fun fault => ofArguments_eq_error_iff⟩
  case accepted =>
    rintro ⟨program, config, steps, h⟩
    exact exists_isCommand h
  case command =>
    rintro ⟨units, hunits, rfl⟩
    obtain ⟨program, hone⟩ := hunits.one
    exact ⟨program, _, _, haccepted hunits rfl hone (List.Perm.refl units)⟩
  case said =>
    rintro units hunits rfl
    obtain ⟨program, hone⟩ := hunits.one
    refine ⟨fun units' hunits' heq => ?_, program, hone,
      haccepted hunits rfl hone (List.Perm.refl units), fun units' => haccepted hunits rfl hone⟩
    exact flatMap_write_inj hunits'.isOption_program hunits.isOption_program heq.symm
  case refused =>
    intro hno
    match hanswer : Invocation.ofArguments args with
    | .error fault => exact ⟨fault, rfl⟩
    | .ok (.simulate program config steps) => exact absurd (exists_isCommand hanswer) hno
    | .ok .help =>
      obtain ⟨said, arg, rest, rfl, -, harg⟩ := ofArguments_eq_help_iff.mp hanswer
      exact absurd harg (hhelp arg (by simp))

/-- Two configurations, the first of them named like an option. -/
theorem arguments_are_units_two_configurations :
    let units : List Argument :=
      [.config "--steps".toList, .program "a.nc".toList, .config "b.toml".toList]
    Invocation.ofArguments (units.flatMap Argument.write) =
        .ok (.simulate "a.nc".toList (some "b.toml".toList) false) ∧
      Invocation.ofArguments (units.reverse.flatMap Argument.write) =
        .ok (.simulate "a.nc".toList (some "--steps".toList) false) := by
  intro units
  have hunits : IsCommand units := ⟨by simp [units, isOption], "a.nc".toList, rfl⟩
  have hhelp : ∀ arg ∈ units.flatMap Argument.write, ¬IsHelp arg := by
    simp [units, Argument.write, IsHelp]
  obtain ⟨-, hsaid, -⟩ := arguments_are_units hhelp
  obtain ⟨-, program, hone, hargs, hperm⟩ := hsaid units hunits rfl
  obtain rfl : "a.nc".toList = program := (List.cons.inj hone).1
  exact ⟨hargs, hperm units.reverse units.reverse_perm⟩

end Motion
