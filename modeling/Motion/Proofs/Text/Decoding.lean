/-
# Decoding around ASCII bytes

Bytes below 128 cut a sequence of bytes for the decoder.  Such a byte continues no character, so it
ends the unfinished one, writes itself and leaves the decoder where it starts: what stands before
it and what stands behind it are decoded independently (`decode_append_ascii`), and the whole is
UTF-8 exactly if both are (`isUtf8_append_ascii`).  And no other byte writes an ASCII character
(`mem_of_mem_decode`), because a character of more than one byte is never finished with a number
below 128.

Both need an invariant of the states.  `Decoder.Proper` says of a state inside a character that
every number with which the character can still be finished is the number of a character beyond
ASCII.  It holds after every first byte, where the narrowed ranges keep out the overlong forms, the
surrogates and the numbers above 0x10FFFF, and every further byte only narrows the range of
numbers.
-/
import Mathlib.Algebra.Group.Nat.Defs
import Mathlib.Tactic.SplitIfs
import Motion.Text.Utf8

namespace Motion.Text

theorem toNat_ofNat_of_isValidChar {n : Nat} (h : n.isValidChar) : (Char.ofNat n).toNat = n := by
  unfold Char.ofNat
  rw [dif_pos h]
  rfl

namespace Decoder

/-! ## 1. The invariant of the states -/

/-- All numbers from `least` up to, not including, `bound` are characters beyond ASCII. -/
def CharsBeyond (least bound : Nat) : Prop :=
  0x80 ≤ least ∧ (bound ≤ 0xD800 ∨ 0xE000 ≤ least ∧ bound ≤ 0x110000)

theorem CharsBeyond.mono {l l' b b' : Nat} (h : CharsBeyond l b) (hl : l ≤ l') (hb : b' ≤ b) :
    CharsBeyond l' b' := by
  unfold CharsBeyond at *
  omega

/-- **A number of the range is the number of its character**, and that is no ASCII character. -/
theorem CharsBeyond.toNat_ofNat {l b n : Nat} (h : CharsBeyond l b) (hl : l ≤ n) (hb : n < b) :
    0x80 ≤ (Char.ofNat n).toNat := by
  have hn : n.isValidChar := by
    unfold CharsBeyond at h
    unfold Nat.isValidChar
    omega
  rw [toNat_ofNat_of_isValidChar hn]
  exact Nat.le_trans h.1 hl

/-- Inside a character, the next byte is a continuation byte, and every number with which the
character can be finished is a character beyond ASCII. -/
def Proper : Decoder → Prop
  | start => True
  | inside later low high bits =>
    0x80 ≤ low.toNat ∧ high.toNat ≤ 0xBF ∧
      CharsBeyond ((bits * 64 + low.toNat % 64) * 64 ^ later)
        ((bits * 64 + high.toNat % 64 + 1) * 64 ^ later)

/-- Every first byte leaves a proper state. -/
theorem first_proper (b : UInt8) : (first b).next.Proper := by
  unfold first
  split_ifs
  all_goals
    simp only [Proper, CharsBeyond, Bool.and_eq_true, decide_eq_true_eq, beq_iff_eq,
      UInt8.le_iff_toNat_le, UInt8.lt_iff_toNat_lt, ← UInt8.toNat_inj, UInt8.reduceToNat] at *
  all_goals omega

/-- A continuation byte within its range, in numbers. -/
theorem continuation_bounds {low high b : UInt8} (hlow : 0x80 ≤ low.toNat)
    (hhigh : high.toNat ≤ 0xBF) (hb : (low ≤ b && b ≤ high) = true) :
    low.toNat % 64 ≤ b.toNat % 64 ∧ b.toNat % 64 ≤ high.toNat % 64 := by
  simp only [Bool.and_eq_true, decide_eq_true_eq, UInt8.le_iff_toNat_le] at hb
  omega

/-- **Every byte keeps the states proper.**  A continuation byte narrows the range of numbers to
one of its parts. -/
theorem step_proper {d : Decoder} (h : d.Proper) (b : UInt8) : (d.step b).next.Proper := by
  cases d with
  | start => exact first_proper b
  | inside later low high bits =>
    obtain ⟨hlow, hhigh, hchars⟩ := h
    by_cases hb : (low ≤ b && b ≤ high) = true
    · cases later with
      | zero => simp [step, hb, Proper]
      | succ later =>
        obtain ⟨hle, hge⟩ := continuation_bounds hlow hhigh hb
        simp only [step, if_pos hb, Proper]
        refine ⟨by decide, by decide, hchars.mono ?_ ?_⟩
        · rw [Nat.pow_succ', ← Nat.mul_assoc]
          exact Nat.mul_le_mul_right _ (by simp only [UInt8.reduceToNat]; omega)
        · rw [Nat.pow_succ', ← Nat.mul_assoc]
          exact Nat.mul_le_mul_right _ (by simp only [UInt8.reduceToNat]; omega)
    · simp only [step, if_neg hb]
      exact first_proper b

/-! ## 2. An ASCII character is written by its own byte alone -/

theorem mem_first_written {b : UInt8} {c : Char} (hmem : c ∈ (first b).written)
    (hc : c.toNat < 0x80) : b.toNat = c.toNat := by
  unfold first at hmem
  split_ifs at hmem with hb
  case pos =>
    rw [List.mem_singleton.mp hmem] at hc ⊢
    simp only [UInt8.lt_iff_toNat_lt, UInt8.reduceToNat] at hb
    rw [toNat_ofNat_of_isValidChar (Or.inl (by omega))]
  all_goals
    simp only [List.not_mem_nil, List.mem_singleton] at hmem
  -- the last byte values start nothing and write the replacement character
  rw [hmem] at hc
  exact absurd hc (by decide)

theorem mem_step_written {d : Decoder} (h : d.Proper) {b : UInt8} {c : Char}
    (hmem : c ∈ (d.step b).written) (hc : c.toNat < 0x80) : b.toNat = c.toNat := by
  cases d with
  | start => exact mem_first_written hmem hc
  | inside later low high bits =>
    obtain ⟨hlow, hhigh, hchars⟩ := h
    by_cases hb : (low ≤ b && b ≤ high) = true
    · cases later with
      | zero =>
        obtain ⟨hle, hge⟩ := continuation_bounds hlow hhigh hb
        simp only [step, if_pos hb, List.mem_singleton] at hmem
        have hbeyond := hchars.toNat_ofNat (n := bits * 64 + b.toNat % 64) (by omega) (by omega)
        rw [hmem] at hc
        omega
      | succ later => simp [step, hb] at hmem
    · simp only [step, if_neg hb, List.mem_cons] at hmem
      rcases hmem with rfl | hmem
      · exact absurd hc (by decide)
      · exact mem_first_written hmem hc

/-- An ASCII character that is written from a proper state on is one of the bytes. -/
theorem mem_of_mem_run {d : Decoder} (h : d.Proper) {l : List UInt8} {c : Char}
    (hmem : c ∈ d.run l) (hc : c.toNat < 0x80) : ∃ b ∈ l, b.toNat = c.toNat := by
  induction l generalizing d with
  | nil =>
    cases d with
    | start => simp [run] at hmem
    | inside later low high bits =>
      rw [List.mem_singleton.mp hmem] at hc
      exact absurd hc (by decide)
  | cons b rest ih =>
    simp only [run, List.mem_append] at hmem
    rcases hmem with hmem | hmem
    · exact ⟨b, List.mem_cons_self, mem_step_written h hmem hc⟩
    · obtain ⟨b', hb', heq⟩ := ih (step_proper h b) hmem
      exact ⟨b', List.mem_cons_of_mem _ hb', heq⟩

/-! ## 3. Decoding on both sides of an ASCII byte -/

/-- An ASCII byte continues no character. -/
theorem not_continuation {later bits : Nat} {low high b : UInt8}
    (h : (inside later low high bits).Proper) (hb : b < 0x80) :
    ¬ (low ≤ b && b ≤ high) = true := by
  have hlow := h.1
  simp only [Bool.and_eq_true, decide_eq_true_eq, UInt8.le_iff_toNat_le]
  simp only [UInt8.lt_iff_toNat_lt, UInt8.reduceToNat] at hb
  omega

/-- **An ASCII byte ends what is unfinished and starts afresh.** -/
theorem run_cons_ascii {d : Decoder} (h : d.Proper) {b : UInt8} (hb : b < 0x80)
    (rest : List UInt8) :
    d.run (b :: rest) = d.run [] ++ Char.ofNat b.toNat :: decode rest := by
  have hfirst : first b = ⟨.start, [Char.ofNat b.toNat], true⟩ := by simp [first, hb]
  cases d with
  | start => simp [run, step, hfirst, decode]
  | inside later low high bits =>
    simp [run, step, not_continuation h hb, hfirst, decode]

theorem run_append_ascii {d : Decoder} (h : d.Proper) (l : List UInt8) {b : UInt8} (hb : b < 0x80)
    (rest : List UInt8) :
    d.run (l ++ b :: rest) = d.run l ++ Char.ofNat b.toNat :: decode rest := by
  induction l generalizing d with
  | nil => exact run_cons_ascii h hb rest
  | cons b' l ih => simp only [List.cons_append, run, ih (step_proper h b'), List.append_assoc]

/-- **What is UTF-8 on both sides of an ASCII byte is UTF-8**, and nothing else is: the byte
finishes no character. -/
theorem accepts_append_ascii {d : Decoder} (h : d.Proper) (l : List UInt8) {b : UInt8}
    (hb : b < 0x80) (rest : List UInt8) :
    d.accepts (l ++ b :: rest) = (d.accepts l && isUtf8 rest) := by
  induction l generalizing d with
  | nil =>
    have hfirst : first b = ⟨.start, [Char.ofNat b.toNat], true⟩ := by simp [first, hb]
    rw [List.nil_append, accepts_cons]
    cases d with
    | start => simp [step, hfirst, accepts, isUtf8]
    | inside later low high bits => simp [step, not_continuation h hb, accepts]
  | cons b' l ih =>
    rw [List.cons_append, accepts_cons, accepts_cons, ih (step_proper h b'), Bool.and_assoc]

/-- Bytes leave something: only from the start, and only of no bytes, nothing is written. -/
theorem run_eq_nil_iff {d : Decoder} {l : List UInt8} : d.run l = [] ↔ d = start ∧ l = [] := by
  induction l generalizing d with
  | nil => cases d <;> simp [run]
  | cons b rest ih =>
    have hstep : ¬ ((d.step b).written = [] ∧ (d.step b).next = start) := by
      have hfirst : ¬ ((first b).written = [] ∧ (first b).next = start) := by
        unfold first
        split_ifs <;> simp
      cases d with
      | start => exact hfirst
      | inside later low high bits =>
        by_cases hb : (low ≤ b && b ≤ high) = true
        · cases later <;> simp [step, hb]
        · simp [step, hb]
    simp only [run, List.append_eq_nil_iff, ih]
    simp only [reduceCtorEq, and_false, iff_false]
    exact fun hnil => hstep ⟨hnil.1, hnil.2.1⟩

end Decoder

theorem decode_append_ascii (l : List UInt8) {b : UInt8} (hb : b < 0x80) (rest : List UInt8) :
    decode (l ++ b :: rest) = decode l ++ Char.ofNat b.toNat :: decode rest :=
  Decoder.run_append_ascii (d := .start) trivial l hb rest

theorem isUtf8_append_ascii (l : List UInt8) {b : UInt8} (hb : b < 0x80) (rest : List UInt8) :
    isUtf8 (l ++ b :: rest) = (isUtf8 l && isUtf8 rest) :=
  Decoder.accepts_append_ascii (d := .start) trivial l hb rest

/-- **An ASCII character of a decoded text is one of its bytes.** -/
theorem mem_of_mem_decode {l : List UInt8} {c : Char} (hmem : c ∈ decode l)
    (hc : c.toNat < 0x80) : ∃ b ∈ l, b.toNat = c.toNat :=
  Decoder.mem_of_mem_run (d := .start) trivial hmem hc

theorem decode_eq_nil_iff {l : List UInt8} : decode l = [] ↔ l = [] := by
  simp [decode, Decoder.run_eq_nil_iff]

end Motion.Text
