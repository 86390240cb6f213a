/-
# Blanks and words

A text is read from the left, one character at a time, so a `Text` is the list of its characters.
This file says which characters are blank, how the blank ends of a text are dropped (`trim`) and
how a text falls into its words, the maximal runs of characters that are not blank (`words`).

The blanks are the characters with the Unicode property White_Space.  They are more than the
ASCII blanks that the standard library knows, and `isBlank_of_isWhitespace` says that they
contain those.
-/
namespace Motion

/-- A text: its characters in reading order. -/
abbrev Text := List Char

namespace Text

/-- The characters with the Unicode property White_Space. -/
def isBlank (c : Char) : Bool :=
  let n := c.toNat
  (9 ≤ n && n ≤ 13) || n == 0x20 || n == 0x85 || n == 0xA0 || n == 0x1680 ||
    (0x2000 ≤ n && n ≤ 0x200A) || n == 0x2028 || n == 0x2029 || n == 0x202F || n == 0x205F ||
    n == 0x3000

/-- The text from its first character that is not blank. -/
def trimStart (t : Text) : Text := t.dropWhile isBlank

/-- The text up to its last character that is not blank. -/
def trimEnd (t : Text) : Text := (t.reverse.dropWhile isBlank).reverse

/-- The text without the blanks at its two ends. -/
def trim (t : Text) : Text := trimEnd (trimStart t)

/-- The maximal runs of characters that are not blank, from left to right. -/
def words (t : Text) : List Text := (t.splitOnP isBlank).filter (fun w => !w.isEmpty)

/-! ## Small facts -/

theorem isBlank_of_isWhitespace {c : Char} (h : c.isWhitespace = true) : isBlank c = true := by
  simp only [Char.isWhitespace, Bool.or_eq_true, decide_eq_true_eq] at h
  rcases h with ((rfl | rfl) | rfl) | rfl <;> decide

theorem words_nil : words [] = [] := by decide

end Text
end Motion
