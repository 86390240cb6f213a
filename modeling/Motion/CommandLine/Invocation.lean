/-
# Invocations

The arguments of the command line, read from left to right.  `--config` takes the argument after
it, whatever that is; anything else that starts with two dashes has to be a known option; and one
argument must be the program.  Whoever asks for help gets it, unless an argument before that is
wrong.
-/
import Motion.Text.Blank

namespace Motion

/-- What the command line asks for. -/
inductive Invocation where
  | help
  | simulate (program : Text) (config : Option Text) (steps : Bool)
  deriving Repr, DecidableEq

/-- What is wrong with the arguments. -/
inductive ArgumentFault where
  | configWithoutPath
  | unknownOption (option : Text)
  | secondProgram
  | noProgram
  deriving Repr, DecidableEq

/-- How the command is used. -/
def usage : String := "usage: gcodesim <program> [--config <path>] [--steps]"

/-- The wording of a fault. -/
def ArgumentFault.message : ArgumentFault → String
  | configWithoutPath => "--config needs a path"
  | unknownOption option => s!"unknown option {String.ofList option}\n{usage}"
  | secondProgram => s!"only one program may be given\n{usage}"
  | noProgram => usage

/-- What the arguments so far ask for. -/
structure Arguments where
  program : Option Text := none
  config : Option Text := none
  steps : Bool := false
  deriving Repr, DecidableEq

/-- An argument that starts with two dashes. -/
def isOption : Text → Bool
  | '-' :: '-' :: _ => true
  | _ => false

/-- The arguments after those that were read. -/
def Arguments.read (a : Arguments) : List Text → Except ArgumentFault Invocation
  | [] =>
    match a.program with
    | some program => .ok (.simulate program a.config a.steps)
    | none => .error .noProgram
  | arg :: rest =>
    if arg = "--config".toList then
      match rest with
      | [] => .error .configWithoutPath
      | path :: rest => Arguments.read { a with config := some path } rest
    else if arg = "--steps".toList then Arguments.read { a with steps := true } rest
    else if arg = "-h".toList ∨ arg = "--help".toList then .ok .help
    else if isOption arg then .error (.unknownOption arg)
    else if a.program.isSome then .error .secondProgram
    else Arguments.read { a with program := some arg } rest

/-- What some arguments ask for. -/
def Invocation.ofArguments (args : List Text) : Except ArgumentFault Invocation :=
  Arguments.read {} args

end Motion
