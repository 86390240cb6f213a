/-
# Decoding what was encoded

The bytes of a character are a first one, which says how many follow, and then six bits of its
number in each.  Behind the first byte the decoder stands inside a character, and there it has to
have read the upper bits of the number and to allow the next six (`Decoder.Awaits`).  Every further
byte keeps that, and the last one leaves the number itself (`Decoder.Awaits.yields`).  So it is only
the first byte that has to be looked at for each of the four lengths: the narrowed ranges behind it
must let the number through, because it is neither overlong nor half of a pair.
-/
import Mathlib.Algebra.Group.Nat.Defs
import Mathlib.Tactic.SplitIfs
import Motion.Text.Utf8

namespace Motion.Text

namespace Decoder

/-! ## 1. What some bytes yield -/

/-- The bytes are taken from this state on without a refusal, and they write one character. -/
def Yields (d : Decoder) (bytes : List UInt8) (c : Char) : Prop :=
  ∀ rest, d.run (bytes ++ rest) = c :: start.run rest ∧
    d.accepts (bytes ++ rest) = start.accepts rest

theorem yields_last {d : Decoder} {b : UInt8} {c : Char} (h : d.step b = ⟨start, [c], true⟩) :
    d.Yields [b] c := by
  intro rest
  rw [List.cons_append, List.nil_append, run_cons, accepts_cons, h]
  exact ⟨rfl, Bool.true_and _⟩

theorem Yields.cons {d d' : Decoder} {b : UInt8} {bytes : List UInt8} {c : Char}
    (h : d'.Yields bytes c) (hstep : d.step b = ⟨d', [], true⟩) : d.Yields (b :: bytes) c := by
  intro rest
  rw [List.cons_append, run_cons, accepts_cons, hstep]
  exact ⟨(h rest).1, (Bool.true_and _).trans (h rest).2⟩

/-! ## 2. The bytes behind the first one -/

/-- The last `count` bytes of a character beyond ASCII, by its number. -/
def continuation (n : Nat) : Nat → List UInt8
  | 0 => []
  | later + 1 => UInt8.ofNat (n / 64 ^ later % 64 + 128) :: continuation n later

/-- Inside the character with this number, with `count` bytes to come: what was read are the upper
bits of the number, and the next six are allowed. -/
def Awaits (n count : Nat) : Decoder → Prop
  | start => False
  | inside later low high bits =>
    count = later + 1 ∧ bits = n / 64 ^ (later + 1) ∧ low.toNat ≤ n / 64 ^ later % 64 + 128 ∧
      n / 64 ^ later % 64 + 128 ≤ high.toNat

/-- The number read so far and six bits more. -/
theorem upper_bits (n later : Nat) :
    n / 64 ^ (later + 1) * 64 + n / 64 ^ later % 64 = n / 64 ^ later := by
  rw [Nat.pow_succ, ← Nat.div_div_eq_div_mul]
  omega

theorem step_inside {n later bits : Nat} {low high : UInt8}
    (h : (inside later low high bits).Awaits n (later + 1)) :
    (inside later low high bits).step (UInt8.ofNat (n / 64 ^ later % 64 + 128)) =
      match later with
      | 0 => ⟨start, [Char.ofNat n], true⟩
      | later + 1 => ⟨inside later 0x80 0xBF (n / 64 ^ (later + 1)), [], true⟩ := by
  obtain ⟨-, rfl, hlow, hhigh⟩ := h
  have hbyte : (UInt8.ofNat (n / 64 ^ later % 64 + 128)).toNat = n / 64 ^ later % 64 + 128 := by
    rw [UInt8.toNat_ofNat']
    omega
  have hrange : (low ≤ UInt8.ofNat (n / 64 ^ later % 64 + 128) &&
      UInt8.ofNat (n / 64 ^ later % 64 + 128) ≤ high) = true := by
    simp only [Bool.and_eq_true, decide_eq_true_eq, UInt8.le_iff_toNat_le, hbyte]
    exact ⟨hlow, hhigh⟩
  have hbits : n / 64 ^ (later + 1) * 64 + (n / 64 ^ later % 64 + 128) % 64 = n / 64 ^ later := by
    have hupper := upper_bits n later
    omega
  simp only [step, hrange, if_true, hbyte, hbits]
  cases later with
  | zero => simp
  | succ later => rfl

/-- **Behind the first byte, the others of a character write it.** -/
theorem Awaits.yields {d : Decoder} {n count : Nat} (h : d.Awaits n count) :
    d.Yields (continuation n count) (Char.ofNat n) := by
  induction count generalizing d with
  | zero =>
    cases d with
    | start => exact h.elim
    | inside later low high bits => exact absurd h.1 (Nat.succ_ne_zero later).symm
  | succ count ih =>
    cases d with
    | start => exact h.elim
    | inside later low high bits =>
      obtain rfl : count = later := Nat.succ.inj h.1
      have hstep := step_inside h
      cases count with
      | zero => exact yields_last hstep
      | succ later =>
        have hnext : (inside later 0x80 0xBF (n / 64 ^ (later + 1))).Awaits n (later + 1) := by
          refine ⟨rfl, rfl, ?_, ?_⟩ <;> simp only [UInt8.reduceToNat] <;> omega
        exact (ih hnext).cons hstep

/-! ## 3. The first byte -/

/-- The number of bytes behind the first one of a character beyond ASCII, and the first byte, by the
number of the character. -/
inductive Leads (n : Nat) : Nat → Nat → Prop where
  | two (low : 0x80 ≤ n) (high : n < 0x800) : Leads n 1 (n / 64 + 0xC0)
  | three (low : 0x800 ≤ n) (high : n < 0x10000) : Leads n 2 (n / 4096 + 0xE0)
  | four (low : 0x10000 ≤ n) : Leads n 3 (n / 262144 + 0xF0)

/-- **The first byte opens the character**: the range that it leaves for the second one lets
through what is neither overlong nor half of a pair. -/
theorem first_awaits {n count lead : Nat} (h : n.isValidChar) (hlead : Leads n count lead) :
    (first (UInt8.ofNat lead)).written = [] ∧ (first (UInt8.ofNat lead)).sound = true ∧
      (first (UInt8.ofNat lead)).next.Awaits n count := by
  have hbyte : (UInt8.ofNat lead).toNat = lead := by
    unfold Nat.isValidChar at h
    rw [UInt8.toNat_ofNat']
    cases hlead <;> omega
  generalize UInt8.ofNat lead = b at hbyte
  unfold Nat.isValidChar at h
  unfold first
  cases hlead <;> split_ifs
  all_goals
    simp only [Awaits, Bool.and_eq_true, decide_eq_true_eq, beq_iff_eq, UInt8.le_iff_toNat_le,
      UInt8.lt_iff_toNat_lt, ← UInt8.toNat_inj, UInt8.reduceToNat, Nat.zero_add, Nat.reduceAdd,
      Nat.reducePow, Nat.div_one, true_and] at *
  all_goals omega

/-- **The form of a character beyond ASCII.** -/
theorem utf8EncodeChar_eq {c : Char} (h : 0x80 ≤ c.toNat) :
    ∃ count lead, Leads c.toNat count lead ∧
      String.utf8EncodeChar c = UInt8.ofNat lead :: continuation c.toNat count := by
  have hvalid : c.toNat.isValidChar := c.valid
  unfold Nat.isValidChar at hvalid
  have hval : c.val.toNat = c.toNat := rfl
  simp only [String.utf8EncodeChar, hval]
  split_ifs with h1 h2 h3
  · omega
  · refine ⟨1, _, .two h (by omega), ?_⟩
    rw [Nat.mod_eq_of_lt (by omega : c.toNat / 64 < 32)]
    simp [continuation]
  · refine ⟨2, _, .three (by omega) (by omega), ?_⟩
    rw [Nat.mod_eq_of_lt (by omega : c.toNat / 4096 < 16)]
    simp [continuation]
  · refine ⟨3, _, .four (by omega), ?_⟩
    rw [Nat.mod_eq_of_lt (by omega : c.toNat / 262144 < 8)]
    simp [continuation]

/-- **The bytes of a character write it.** -/
theorem start_yields (c : Char) : start.Yields (String.utf8EncodeChar c) c := by
  by_cases h : c.toNat < 0x80
  · have hencode : String.utf8EncodeChar c = [UInt8.ofNat c.toNat] := if_pos (Nat.le_of_lt_succ h)
    have hbyte : (UInt8.ofNat c.toNat).toNat = c.toNat := by
      rw [UInt8.toNat_ofNat']
      omega
    have hlt : UInt8.ofNat c.toNat < 0x80 := by
      rw [UInt8.lt_iff_toNat_lt, hbyte]
      exact h
    rw [hencode]
    refine yields_last ?_
    simp only [step, first, hlt, if_true, hbyte, Char.ofNat_toNat]
  · obtain ⟨count, lead, hlead, hencode⟩ := utf8EncodeChar_eq (c := c) (by omega)
    obtain ⟨hwritten, hsound, hawaits⟩ := first_awaits (n := c.toNat) c.valid hlead
    have hyields := hawaits.yields
    rw [Char.ofNat_toNat] at hyields
    rw [hencode]
    refine hyields.cons ?_
    rw [step, ← hwritten, ← hsound]

end Decoder

/-- **Decoding what was encoded** gives the text back. -/
theorem decode?_encode (t : Text) : decode? (encode t) = some t := by
  have hmain : Decoder.start.run (encode t) = t ∧ Decoder.start.accepts (encode t) = true := by
    induction t with
    | nil => exact ⟨rfl, rfl⟩
    | cons c t ih =>
      obtain ⟨hrun, haccepts⟩ := Decoder.start_yields c (encode t)
      rw [encode, List.flatMap_cons]
      exact ⟨hrun.trans (congrArg _ ih.1), haccepts.trans ih.2⟩
  rw [decode?, isUtf8, hmain.2, if_pos rfl, decode, hmain.1]

end Motion.Text
