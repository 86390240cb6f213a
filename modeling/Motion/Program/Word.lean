/-
# Words

A word is a letter and what follows it.  The letter, in either case, is its address: `G` and `M`
take a whole number and set the code of the line; `X`, `Y`, `Z`, `I`, `J` and `F` take a coordinate
and set one field.  A word with any other letter says nothing here, whatever follows it.
-/
import Motion.Program.Command

namespace Motion

/-- The fields of a command that a word can set. -/
inductive Field where
  | x
  | y
  | z
  | i
  | j
  | feed
  deriving Repr, DecidableEq

/-- What a letter addresses. -/
inductive Address where
  | preparatory
  | miscellaneous
  | field (f : Field)
  deriving Repr, DecidableEq

/-- The address of a letter, in either case; none for most letters. -/
def Address.ofLetter? (letter : Char) : Option Address :=
  match letter.toUpper with
  | 'G' => some .preparatory
  | 'M' => some .miscellaneous
  | 'X' => some (.field .x)
  | 'Y' => some (.field .y)
  | 'Z' => some (.field .z)
  | 'I' => some (.field .i)
  | 'J' => some (.field .j)
  | 'F' => some (.field .feed)
  | _ => none

/-- What a word sets. -/
inductive Entry (α : Type) where
  | code (c : Code)
  | value (f : Field) (v : α)
  deriving Repr, DecidableEq

/-- Why a word sets nothing although its letter is an address. -/
inductive WordFault where
  | integer (fault : IntegerFault)
  | real (fault : RealFault)
  deriving Repr, DecidableEq

/-- The wording of a fault. -/
def WordFault.message : WordFault → String
  | .integer fault => fault.message
  | .real fault => fault.message

variable {α : Type} [Scalar α]

/-- What the text after an address sets. -/
def Address.read (payload : Text) : Address → Except WordFault (Entry α)
  | .preparatory => (payload.readInteger.map (.code ∘ .preparatory)).mapError .integer
  | .miscellaneous => (payload.readInteger.map (.code ∘ .miscellaneous)).mapError .integer
  | .field f => ((Scalar.read payload).map (.value f)).mapError .real

/-- What a word sets, or why it cannot; `none` if its letter is no address. -/
def readWord : Text → Option (Except WordFault (Entry α))
  | [] => none
  | letter :: payload => (Address.ofLetter? letter).map (Address.read payload)

/-- The command with one more entry; it replaces an earlier one. -/
def Command.set (c : Command α) : Entry α → Command α
  | .code code => { c with code }
  | .value .x v => { c with target := { c.target with x := v } }
  | .value .y v => { c with target := { c.target with y := v } }
  | .value .z v => { c with target := { c.target with z := v } }
  | .value .i v => { c with offset := { c.offset with x := v } }
  | .value .j v => { c with offset := { c.offset with y := v } }
  | .value .feed v => { c with feed := v }

end Motion
