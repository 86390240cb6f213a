/-
# TOML strings

The four kinds of strings: basic ones between quotes, with escapes, and literal ones between
apostrophes, without; either on one line or, between threefold marks, over several.

Reading (`readString?`) takes all four.  Writing (`writeString`) takes the first kind that can show
the text without escapes, and the basic kinds where none can:

1. basic, if the text has no quote, backslash, line feed or control character;
2. literal, if it has no apostrophe, line feed or control character;
3. basic over lines, if it has no backslash or control character, and no three quotes in a row;
4. literal over lines, if it has no control character, and no three apostrophes in a row;
5. otherwise basic, over lines if it has a line feed.

A tab is no control character here.
-/
import Motion.Text.Escape

namespace Motion.Toml

/-! ## Reading -/

/-- A character that may stand for itself in strings and comments: any but control characters, a tab
excepted. -/
def isPlain (c : Char) : Bool := c == '\t' || (decide (0x20 ≤ c.toNat) && c.toNat != 0x7F)

/-- What the character after a backslash stands for. -/
def unescape? (c : Char) : Option Char :=
  if c == '"' || c == '\\' then some c else Text.control? c

/-- The character whose code some digits write, if there is one. -/
def codePoint? (digits : Text) : Option Char :=
  (Text.readHex? digits).bind fun code => if code.isValidChar then some (Char.ofNat code) else none

/-- A character before what a reader gives. -/
def before (c : Char) (result : Option (Text × Text)) : Option (Text × Text) :=
  result.map fun r => (c :: r.1, r.2)

/-- A basic string, from behind its opening quote. -/
def readBasic? : Text → Option (Text × Text)
  | [] => none
  | '"' :: rest => some ([], rest)
  | '\\' :: 'u' :: a :: b :: c :: d :: rest => do
    let c ← codePoint? [a, b, c, d]
    before c (readBasic? rest)
  | '\\' :: 'U' :: a :: b :: c :: d :: e :: f :: g :: h :: rest => do
    let c ← codePoint? [a, b, c, d, e, f, g, h]
    before c (readBasic? rest)
  | '\\' :: e :: rest => do
    let c ← unescape? e
    before c (readBasic? rest)
  | c :: rest => if isPlain c then before c (readBasic? rest) else none

/-- A literal string, from behind its opening apostrophe. -/
def readLiteral? : Text → Option (Text × Text)
  | [] => none
  | '\'' :: rest => some ([], rest)
  | c :: rest => if isPlain c then before c (readLiteral? rest) else none

/-- The end of a string over lines, of which `mark` has been seen three times: two more marks at
most belong to the string. -/
def closing (mark : Char) : Text → Text × Text
  | a :: b :: rest =>
    if a == mark then
      if b == mark then ([mark, mark], rest) else ([mark], b :: rest)
    else ([], a :: b :: rest)
  | [a] => if a == mark then ([mark], []) else ([], [a])
  | [] => ([], [])

/-- Where a reader of a basic string over lines stands. -/
inductive Standing where
  /-- In the text. -/
  | inText
  /-- Behind a backslash that only blanks have followed: a line has to end here. -/
  | atEnd
  /-- Behind such a line end: blanks and line ends are left out. -/
  | leftOut
  deriving Repr, DecidableEq

/-- A basic string over lines, from behind its first line end. -/
def readBasicLines? : Standing → Text → Option (Text × Text)
  | _, [] => none
  | .atEnd, ' ' :: rest => readBasicLines? .atEnd rest
  | .atEnd, '\t' :: rest => readBasicLines? .atEnd rest
  | .atEnd, '\n' :: rest => readBasicLines? .leftOut rest
  | .atEnd, '\r' :: '\n' :: rest => readBasicLines? .leftOut rest
  | .atEnd, _ => none
  | .leftOut, ' ' :: rest => readBasicLines? .leftOut rest
  | .leftOut, '\t' :: rest => readBasicLines? .leftOut rest
  | .leftOut, '\n' :: rest => readBasicLines? .leftOut rest
  | .leftOut, '\r' :: '\n' :: rest => readBasicLines? .leftOut rest
  | _, '"' :: '"' :: '"' :: rest => some (closing '"' rest)
  | _, '\\' :: ' ' :: rest => readBasicLines? .atEnd rest
  | _, '\\' :: '\t' :: rest => readBasicLines? .atEnd rest
  | _, '\\' :: '\n' :: rest => readBasicLines? .leftOut rest
  | _, '\\' :: '\r' :: '\n' :: rest => readBasicLines? .leftOut rest
  | _, '\\' :: 'u' :: a :: b :: c :: d :: rest => do
    let c ← codePoint? [a, b, c, d]
    before c (readBasicLines? .inText rest)
  | _, '\\' :: 'U' :: a :: b :: c :: d :: e :: f :: g :: h :: rest => do
    let c ← codePoint? [a, b, c, d, e, f, g, h]
    before c (readBasicLines? .inText rest)
  | _, '\\' :: e :: rest => do
    let c ← unescape? e
    before c (readBasicLines? .inText rest)
  | _, '\n' :: rest => before '\n' (readBasicLines? .inText rest)
  | _, '\r' :: '\n' :: rest => before '\n' (readBasicLines? .inText rest)
  | _, c :: rest => if isPlain c then before c (readBasicLines? .inText rest) else none

/-- A literal string over lines, from behind its first line end. -/
def readLiteralLines? : Text → Option (Text × Text)
  | [] => none
  | '\'' :: '\'' :: '\'' :: rest => some (closing '\'' rest)
  | '\n' :: rest => before '\n' (readLiteralLines? rest)
  | '\r' :: '\n' :: rest => before '\n' (readLiteralLines? rest)
  | c :: rest => if isPlain c then before c (readLiteralLines? rest) else none

/-- A text without the line end at its start, if there is one. -/
def dropLineEnd : Text → Text
  | '\n' :: rest => rest
  | '\r' :: '\n' :: rest => rest
  | t => t

/-- A string on one line, of either kind. -/
def readShortString? : Text → Option (Text × Text)
  | '"' :: rest => readBasic? rest
  | '\'' :: rest => readLiteral? rest
  | _ => none

/-- A string of any kind. -/
def readString? : Text → Option (Text × Text)
  | '"' :: '"' :: '"' :: rest => readBasicLines? .inText (dropLineEnd rest)
  | '\'' :: '\'' :: '\'' :: rest => readLiteralLines? (dropLineEnd rest)
  | t => readShortString? t

/-! ## Writing -/

/-- The greatest number of marks in a row, given how many stand before the text. -/
def longestRun (mark : Char) : Nat → Text → Nat
  | run, [] => run
  | run, c :: rest =>
    if c == mark then longestRun mark (run + 1) rest else max run (longestRun mark 0 rest)

/-- A character that only an escape can show, on one line or over several. -/
def needsCode (c : Char) : Bool :=
  (decide (c.toNat < 0x20) && c != '\t' && c != '\n') || c.toNat == 0x7F

/-- How a string is written. -/
inductive Style where
  | basic
  | literal
  | basicLines
  | literalLines
  deriving Repr, DecidableEq

/-- The first style that shows a text without escapes; a basic one if none does. -/
def Style.of (t : Text) : Style :=
  let coded := t.any needsCode
  let backslash := t.contains '\\'
  let feed := t.contains '\n'
  let quotes := longestRun '"' 0 t
  let apostrophes := longestRun '\'' 0 t
  if !coded && !backslash && quotes == 0 && !feed then .basic
  else if !coded && apostrophes == 0 && !feed then .literal
  else if !coded && !backslash && decide (quotes ≤ 2) then .basicLines
  else if !coded && decide (apostrophes ≤ 2) then .literalLines
  else if feed then .basicLines
  else .basic

/-- The digits of a code, in upper case. -/
def writeCode (c : Char) : Text := '\\' :: 'u' :: (Text.hexPadded 4 c.toNat).map Char.toUpper

/-- A character of a basic string other than a quote. -/
def writeChar (overLines : Bool) (c : Char) : Text :=
  if c == '\n' && overLines then ['\n']
  else
    match Text.controlLetter? c with
    | some letter => ['\\', letter]
    | none =>
      if c == '\\' then ['\\', '\\']
      else if needsCode c then writeCode c
      else [c]

/-- The characters of a basic string, given how many quotes stand right before them.  On one line
every quote is escaped; over lines every third one in a row is. -/
def writeChars (overLines : Bool) : Nat → Text → Text
  | _, [] => []
  | run, c :: rest =>
    if c == '"' then
      if overLines && decide (run < 2) then '"' :: writeChars overLines (run + 1) rest
      else '\\' :: '"' :: writeChars overLines 0 rest
    else writeChar overLines c ++ writeChars overLines 0 rest

/-- A line feed behind the opening marks, where the text has line feeds itself. -/
def opening (t : Text) : Text := if t.contains '\n' then ['\n'] else []

/-- A string. -/
def writeString (t : Text) : Text :=
  match Style.of t with
  | .basic => '"' :: writeChars false 0 t ++ ['"']
  | .literal => '\'' :: t ++ ['\'']
  | .basicLines => "\"\"\"".toList ++ opening t ++ writeChars true 0 t ++ "\"\"\"".toList
  | .literalLines => "\x27\x27\x27".toList ++ opening t ++ t ++ "\x27\x27\x27".toList

end Motion.Toml
