/-
# UTF-8

Bytes are decoded by a machine that reads one byte at a time (`Decoder.step`).  Between characters
it is in `Decoder.start`; inside one it knows the range of the next byte and how many bytes follow
that one.  The ranges after the first byte exclude overlong forms, surrogates and numbers above
0x10FFFF, so the machine refuses a byte exactly where no UTF-8 text can go on.

A refusal is no failure.  `decode` writes one U+FFFD for the bytes of the unfinished character and
reads the refused byte again as the first of the next one: each maximal piece that starts a
character without finishing it becomes one replacement character.  `isUtf8` says that no such
piece occurs, and `decode?` decodes only then.
-/
import Motion.Text.Blank

namespace Motion.Text

/-- The character that stands for bytes that are no UTF-8. -/
def replacement : Char := Char.ofNat 0xFFFD

/-- Where the decoder stands: between characters, or inside one, with the range of the next byte,
the number of bytes after that one, and the number read so far. -/
inductive Decoder where
  | start
  | inside (later : Nat) (low high : UInt8) (bits : Nat)
  deriving Repr, DecidableEq

/-- What one byte does: the next state, the characters written, and whether the byte was due. -/
structure Decoder.Step where
  next : Decoder
  written : Text
  sound : Bool
  deriving Repr, DecidableEq

/-- The first byte of a character. -/
def Decoder.first (b : UInt8) : Decoder.Step :=
  if b < 0x80 then ⟨.start, [Char.ofNat b.toNat], true⟩
  else if 0xC2 ≤ b && b ≤ 0xDF then ⟨.inside 0 0x80 0xBF (b.toNat % 32), [], true⟩
  else if b == 0xE0 then ⟨.inside 1 0xA0 0xBF (b.toNat % 16), [], true⟩
  else if b == 0xED then ⟨.inside 1 0x80 0x9F (b.toNat % 16), [], true⟩
  else if 0xE1 ≤ b && b ≤ 0xEF then ⟨.inside 1 0x80 0xBF (b.toNat % 16), [], true⟩
  else if b == 0xF0 then ⟨.inside 2 0x90 0xBF (b.toNat % 8), [], true⟩
  else if 0xF1 ≤ b && b ≤ 0xF3 then ⟨.inside 2 0x80 0xBF (b.toNat % 8), [], true⟩
  else if b == 0xF4 then ⟨.inside 2 0x80 0x8F (b.toNat % 8), [], true⟩
  else ⟨.start, [replacement], false⟩

/-- One byte.  A byte that cannot go on ends the unfinished character and starts the next. -/
def Decoder.step : Decoder → UInt8 → Decoder.Step
  | .start, b => Decoder.first b
  | .inside later low high bits, b =>
    if low ≤ b && b ≤ high then
      let bits := bits * 64 + b.toNat % 64
      match later with
      | 0 => ⟨.start, [Char.ofNat bits], true⟩
      | later + 1 => ⟨.inside later 0x80 0xBF bits, [], true⟩
    else
      let again := Decoder.first b
      ⟨again.next, replacement :: again.written, false⟩

/-- The characters written from a state on; an unfinished last character is replaced. -/
def Decoder.run : Decoder → List UInt8 → Text
  | .start, [] => []
  | .inside .., [] => [replacement]
  | d, b :: rest => (d.step b).written ++ (d.step b).next.run rest

/-- No byte is refused from a state on, and the last character is finished. -/
def Decoder.accepts : Decoder → List UInt8 → Bool
  | .start, [] => true
  | .inside .., [] => false
  | d, b :: rest => (d.step b).sound && (d.step b).next.accepts rest

/-- The text of any bytes, with U+FFFD for what is no UTF-8. -/
def decode (bytes : List UInt8) : Text := Decoder.start.run bytes

/-- The bytes are the UTF-8 form of a text. -/
def isUtf8 (bytes : List UInt8) : Bool := Decoder.start.accepts bytes

/-- The text whose UTF-8 form the bytes are, if there is one. -/
def decode? (bytes : List UInt8) : Option Text :=
  if isUtf8 bytes then some (decode bytes) else none

/-- The UTF-8 form of a text. -/
def encode (t : Text) : List UInt8 := t.flatMap String.utf8EncodeChar

/-! ## Small facts -/

theorem Decoder.run_cons (d : Decoder) (b : UInt8) (rest : List UInt8) :
    d.run (b :: rest) = (d.step b).written ++ (d.step b).next.run rest := by
  cases d <;> rfl

theorem Decoder.accepts_cons (d : Decoder) (b : UInt8) (rest : List UInt8) :
    d.accepts (b :: rest) = ((d.step b).sound && (d.step b).next.accepts rest) := by
  cases d <;> rfl

theorem isUtf8_nil : isUtf8 [] = true := rfl

end Motion.Text
