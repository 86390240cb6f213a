/-
# Consoles

What a program does at a console, one thing after the other.  It prints lines, it notes in its log
what it cannot use, and it may stop before its end, because it has done all there is to do or
because something failed.  A stop takes nothing back: what was printed before it stays printed.
-/
import Motion.Text.Lines

namespace Motion

/-- What a program has written so far, line by line. -/
structure Written where
  /-- Standard output. -/
  printed : Array String := #[]
  /-- The log, which is not part of the output. -/
  noted : Array String := #[]
  deriving Repr, DecidableEq

/-- Why a program stops before its end. -/
inductive Stop where
  /-- There is nothing left to do. -/
  | done
  | failed (message : String)
  deriving Repr, DecidableEq

/-- A program at a console: what it has written is there whether it stops or not. -/
abbrev Console := EStateM Stop Written

namespace Console

/-- Prints a line. -/
def print (line : String) : Console Unit :=
  modify fun w => { w with printed := w.printed.push line }

/-- Notes a line in the log. -/
def note (line : String) : Console Unit :=
  modify fun w => { w with noted := w.noted.push line }

/-- Stops without a failure. -/
def stop : Console Unit := throw .done

/-- Stops with a failure. -/
def fail (message : String) : Console Unit := throw (.failed message)

/-- A step that gives a value, or fails and with it the program. -/
def attempt {β : Type} : Except String β → Console β
  | .ok b => pure b
  | .error message => throw (.failed message)

end Console

/-- What a program came to. -/
structure Outcome where
  written : Written
  /-- What it failed with, if it did. -/
  failure? : Option String
  deriving Repr, DecidableEq

/-- What a program comes to that starts with nothing written. -/
def Console.outcome (program : Console Unit) : Outcome :=
  match program.run {} with
  | .ok () w => ⟨w, none⟩
  | .error .done w => ⟨w, none⟩
  | .error (.failed message) w => ⟨w, some message⟩

namespace Outcome

/-- The exit code. -/
def code (o : Outcome) : Nat := if o.failure?.isSome then 1 else 0

/-- Standard output. -/
def output (o : Outcome) : Text := Text.unlines (o.written.printed.toList.map String.toList)

/-- The log. -/
def log (o : Outcome) : Text := Text.unlines (o.written.noted.toList.map String.toList)

/-- What goes to the error output behind the word that marks it as an error. -/
def complaint (o : Outcome) : Text := Text.unlines (o.failure?.toList.map String.toList)

end Outcome

/-! ## What is written -/

namespace Written

/-- With more lines printed. -/
def print (w : Written) (lines : List String) : Written :=
  { w with printed := w.printed ++ lines.toArray }

/-- With more lines noted. -/
def note (w : Written) (lines : List String) : Written :=
  { w with noted := w.noted ++ lines.toArray }

@[simp] theorem print_nil (w : Written) : w.print [] = w := by simp [print]

@[simp] theorem note_nil (w : Written) : w.note [] = w := by simp [note]

@[simp] theorem print_print (w : Written) (lines rest : List String) :
    (w.print lines).print rest = w.print (lines ++ rest) := by
  simp [print, Array.append_assoc]

@[simp] theorem note_note (w : Written) (lines rest : List String) :
    (w.note lines).note rest = w.note (lines ++ rest) := by
  simp [note, Array.append_assoc]

end Written

namespace Console

variable {β γ : Type} {w w' : Written}

@[simp] theorem run_print (line : String) (w : Written) :
    (print line).run w = .ok () (w.print [line]) := by
  simp [print, Written.print]

@[simp] theorem run_note (line : String) (w : Written) :
    (note line).run w = .ok () (w.note [line]) := by
  simp [note, Written.note]

@[simp] theorem run_stop (w : Written) : stop.run w = .error .done w := rfl

@[simp] theorem run_fail (message : String) (w : Written) :
    (fail message).run w = .error (.failed message) w := rfl

@[simp] theorem run_attempt_ok (b : β) (w : Written) : (attempt (.ok b)).run w = .ok b w := rfl

@[simp] theorem run_attempt_error (message : String) (w : Written) :
    (attempt (.error message : Except String β)).run w = .error (.failed message) w := rfl

/-- What comes behind a step that gives a value. -/
theorem run_bind_of_ok {x : Console β} {b : β} (h : x.run w = .ok b w') (f : β → Console γ) :
    (x >>= f).run w = (f b).run w' := by
  rw [EStateM.run_bind, h]

/-- Nothing comes behind a stop. -/
theorem run_bind_of_error {x : Console β} {e : Stop} (h : x.run w = .error e w')
    (f : β → Console γ) : (x >>= f).run w = .error e w' := by
  rw [EStateM.run_bind, h]

section Outcomes

variable {program : Console Unit}

theorem outcome_of_run_ok (h : program.run {} = .ok () w) : program.outcome = ⟨w, none⟩ := by
  rw [outcome, h]

theorem outcome_of_run_done (h : program.run {} = .error .done w) :
    program.outcome = ⟨w, none⟩ := by
  rw [outcome, h]

theorem outcome_of_run_failed {message : String} (h : program.run {} = .error (.failed message) w) :
    program.outcome = ⟨w, some message⟩ := by
  rw [outcome, h]

end Outcomes

end Console
end Motion
