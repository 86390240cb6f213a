/-
# The texts that are numbers

What a reader of numbers accepts is a property of the text, and this module says which, by grammars
that mention no reader.

* A whole number is a sign or none, and one or more digits (`IsWhole`).
* A decimal number is a sign or none, and digits with or without a point among them, one digit at
  least, and with or without a power of ten behind them: the letter `e` in either case and a whole
  number (`IsDecimal`).

The readers accept these texts and no others, and read the values that the grammars give them
(`readInteger_eq_ok_iff`, `readDecimal_eq_finite_iff`).  Whole numbers have to fit into 32 bits
beside.  Their reader gives up at the first digit that leads out of the range, which is no loss:
digits lead away from zero, so the digits behind it would not lead back.

All readers treat the sign alike.  `unsign` takes it off, and each of them is an equation about what
remains.
-/
import Mathlib
import Motion.Proofs.Text.Digits

namespace Motion.Text

/-! ## 1. Signs -/

/-- A sign or none, and whether it makes a number negative. -/
inductive IsSign : Bool → Text → Prop
  | none : IsSign false []
  | plus : IsSign false ['+']
  | minus : IsSign true ['-']

/-- A number of the given sign. -/
def signed (negative : Bool) (n : Nat) : Int := if negative then -n else n

@[simp] theorem signed_false (n : Nat) : signed false n = n := rfl

@[simp] theorem signed_true (n : Nat) : signed true n = -n := rfl

/-- Whether a text begins with a minus, and the text without its sign. -/
def unsign : Text → Bool × Text
  | '+' :: t => (false, t)
  | '-' :: t => (true, t)
  | t => (false, t)

theorem exists_isSign (t : Text) :
    ∃ sign, IsSign (unsign t).1 sign ∧ t = sign ++ (unsign t).2 := by
  unfold unsign
  split
  · exact ⟨_, .plus, rfl⟩
  · exact ⟨_, .minus, rfl⟩
  · exact ⟨_, .none, rfl⟩

theorem sign_cases (t : Text) :
    (∃ u, t = '+' :: u) ∨ (∃ u, t = '-' :: u) ∨ ∀ c ∈ t.head?, c ≠ '+' ∧ c ≠ '-' := by
  cases t with
  | nil => simp
  | cons c t => by_cases hplus : c = '+' <;> by_cases hminus : c = '-' <;> simp [hplus, hminus]

theorem unsign_of_head? {t : Text} (h : ∀ c ∈ t.head?, c ≠ '+' ∧ c ≠ '-') :
    unsign t = (false, t) := by
  unfold unsign
  split
  · exact absurd rfl (h '+' rfl).1
  · exact absurd rfl (h '-' rfl).2
  · rfl

/-- A sign is taken off what does not begin with one. -/
theorem unsign_append {negative : Bool} {sign t : Text} (hsign : IsSign negative sign)
    (ht : ∀ c ∈ t.head?, c ≠ '+' ∧ c ≠ '-') : unsign (sign ++ t) = (negative, t) := by
  cases hsign with
  | none => exact unsign_of_head? ht
  | plus => rfl
  | minus => rfl

/-! ## 2. Digits -/

/-- One or more ASCII digits. -/
structure IsDigits (t : Text) : Prop where
  ne_nil : t ≠ []
  isDigit : ∀ c ∈ t, isDigit c

theorem ne_sign_of_isDigit {c : Char} (h : isDigit c) : c ≠ '+' ∧ c ≠ '-' :=
  ⟨ne_of_holds h rfl, ne_of_holds h rfl⟩

/-- A digit has no other case. -/
theorem toLower_of_isDigit {c : Char} (h : isDigit c) : c.toLower = c := by
  apply Char.toLower_eq_of_not_isUpper
  simp only [isDigit, digit?, Option.isSome_ite, Char.le_def, UInt32.le_iff_toNat_le] at h
  simp only [Char.isUpper, UInt32.le_iff_toNat_le]
  simp at h ⊢
  omega

theorem IsDigits.ne_sign {t : Text} (h : IsDigits t) : ∀ c ∈ t.head?, c ≠ '+' ∧ c ≠ '-' :=
  fun c hc => ne_sign_of_isDigit (h.isDigit c (List.mem_of_head? hc))

/-- The whole number that a run of digits writes behind the digits of another. -/
def naturalFrom (m : Nat) (t : Text) : Nat := t.foldl (fun n c => 10 * n + (digit? c).getD 0) m

theorem naturalFrom_cons {c : Char} {d : Nat} (h : digit? c = some d) (m : Nat) (t : Text) :
    naturalFrom m (c :: t) = naturalFrom (10 * m + d) t := by
  rw [naturalFrom, List.foldl_cons, h]
  rfl

/-- More digits lead away from zero. -/
theorem le_naturalFrom (m : Nat) (t : Text) : m ≤ naturalFrom m t := by
  induction t generalizing m with
  | nil => exact Nat.le_refl m
  | cons c t ih =>
    calc m ≤ 10 * m + (digit? c).getD 0 := by omega
      _ ≤ naturalFrom m (c :: t) := ih _

theorem readNatural?_eq_some_iff {t : Text} {n : Nat} :
    readNatural? t = some n ↔ IsDigits t ∧ naturalOf t = n := by
  unfold readNatural?
  split
  case isTrue h =>
    have hno : ¬ IsDigits t := by
      rintro ⟨hne, hall⟩
      rw [List.all_eq_true.mpr hall] at h
      simp [hne] at h
    simp [hno]
  case isFalse h =>
    simp only [Bool.or_eq_true, List.isEmpty_iff, Bool.not_eq_true', not_or, Bool.not_eq_false,
      List.all_eq_true] at h
    simp [IsDigits.mk h.1 h.2]

/-! ## 3. Whole numbers -/

/-- A text and the whole number that it writes. -/
inductive IsWhole : Int → Text → Prop
  | mk {negative : Bool} {sign digits : Text} (hsign : IsSign negative sign)
      (hdigits : IsDigits digits) : IsWhole (signed negative (naturalOf digits)) (sign ++ digits)

/-- A number of 32 bits. -/
def Fits (n : Int) : Prop := -2147483648 ≤ n ∧ n ≤ 2147483647

theorem isWhole_iff {n : Int} {t : Text} :
    IsWhole n t ↔
      IsDigits (unsign t).2 ∧ signed (unsign t).1 (naturalOf (unsign t).2) = n := by
  constructor
  · rintro ⟨hsign, hdigits⟩
    rw [unsign_append hsign hdigits.ne_sign]
    exact ⟨hdigits, rfl⟩
  · rintro ⟨hdigits, rfl⟩
    obtain ⟨sign, hsign, heq⟩ := exists_isSign t
    have hwhole := IsWhole.mk hsign hdigits
    rwa [← heq] at hwhole

/-- **Digits read one by one** behind a number that fits: the number that is written has to fit in
the end, and then it did all the way. -/
theorem integerFrom_eq_ok_iff {negative : Bool} {m : Nat} (hm : Fits (signed negative m)) {n : Int}
    {t : Text} :
    integerFrom negative (signed negative m) t = .ok n ↔
      (∀ c ∈ t, isDigit c) ∧ signed negative (naturalFrom m t) = n ∧ Fits n := by
  induction t generalizing m with
  | nil =>
    have hvalue : naturalFrom m [] = m := rfl
    simp only [integerFrom, hvalue, Except.ok.injEq, List.not_mem_nil, false_imp_iff, implies_true,
      true_and]
    exact ⟨fun h => ⟨h, h ▸ hm⟩, fun h => h.1⟩
  | cons c t ih =>
    rw [integerFrom]
    cases hdigit : digit? c with
    | none => simp [isDigit, hdigit]
    | some d =>
      have hnext : (if negative then 10 * signed negative m - d else 10 * signed negative m + d) =
          signed negative (10 * m + d) := by
        cases negative
        · simp only [signed_false, Bool.false_eq_true, if_false]
          omega
        · simp only [signed_true, if_true]
          omega
      have hall : (∀ a ∈ c :: t, isDigit a) ↔ ∀ a ∈ t, isDigit a := by
        simp [isDigit, hdigit]
      have hfar := le_naturalFrom (10 * m + d) t
      simp only [hnext, hall, naturalFrom_cons hdigit]
      by_cases hfits : Fits (signed negative (10 * m + d))
      · rw [if_neg (by have := hfits.2; omega), if_neg (by have := hfits.1; omega)]
        exact ih hfits
      · have hno : ¬ Fits (signed negative (naturalFrom (10 * m + d) t)) := by
          cases negative <;> simp only [Fits, signed_false, signed_true] at hfits ⊢ <;> omega
        constructor
        · intro h
          rw [Fits] at hfits
          split at h
          · cases h
          · split at h
            · cases h
            · omega
        · rintro ⟨-, rfl, h⟩
          exact absurd h hno

theorem signedInteger_eq_ok_iff {negative : Bool} {n : Int} {t : Text} :
    signedInteger negative t = .ok n ↔
      IsDigits t ∧ signed negative (naturalOf t) = n ∧ Fits n := by
  unfold signedInteger
  split
  case isTrue h =>
    have hno : ¬ IsDigits t := fun hdigits => hdigits.ne_nil (List.isEmpty_iff.mp h)
    simp [hno]
  case isFalse h =>
    have hzero : signed negative 0 = 0 := by cases negative <;> rfl
    have hfits : Fits (signed negative 0) := by
      rw [hzero]
      exact ⟨by decide, by decide⟩
    rw [← hzero, integerFrom_eq_ok_iff hfits]
    constructor
    · rintro ⟨hall, hvalue⟩
      exact ⟨⟨by simpa using h, hall⟩, hvalue⟩
    · rintro ⟨hdigits, hvalue⟩
      exact ⟨hdigits.isDigit, hvalue⟩

/-- A whole number is read after its sign. -/
theorem readInteger_eq (t : Text) :
    readInteger t =
      if t.isEmpty then .error .empty else signedInteger (unsign t).1 (unsign t).2 := by
  rcases sign_cases t with ⟨u, rfl⟩ | ⟨u, rfl⟩ | hhead
  · rfl
  · rfl
  · rw [unsign_of_head? hhead]
    unfold readInteger
    split
    · rfl
    · exact absurd rfl (hhead '+' rfl).1
    · exact absurd rfl (hhead '-' rfl).2
    · rename_i hne _ _
      rw [if_neg (by simpa using hne)]

/-- **The texts that are read as whole numbers** are those of the grammar with values of 32 bits. -/
theorem readInteger_eq_ok_iff {n : Int} {t : Text} :
    readInteger t = .ok n ↔ IsWhole n t ∧ Fits n := by
  rw [readInteger_eq, isWhole_iff, and_assoc, ← signedInteger_eq_ok_iff]
  split
  case isTrue h =>
    rw [List.isEmpty_iff.mp h]
    simp [unsign, signedInteger]
  case isFalse => rfl

/-! ## 4. Decimal numbers -/

/-- A point and the digits behind it, or neither of them. -/
inductive IsFraction : Text → Text → Prop
  | none : IsFraction [] []
  | point {digits : Text} (hdigits : ∀ c ∈ digits, isDigit c) : IsFraction digits ('.' :: digits)

/-- A power of ten and its exponent. -/
inductive IsPower : Int → Text → Prop
  | none : IsPower 0 []
  | letter {letter : Char} {n : Int} {t : Text} (hletter : letter = 'e' ∨ letter = 'E')
      (hwhole : IsWhole n t) : IsPower n (letter :: t)

/-- A number without a sign: its digits as one whole number, and the power of ten that it is to be
taken times. -/
inductive IsMagnitude : Nat → Int → Text → Prop
  | mk {whole digits point power : Text} {n : Int} (hwhole : ∀ c ∈ whole, isDigit c)
      (hpoint : IsFraction digits point) (hsome : whole ++ digits ≠ []) (hpower : IsPower n power) :
      IsMagnitude (naturalOf (whole ++ digits)) (n - digits.length) (whole ++ (point ++ power))

/-- A decimal number: whether it is negative, its digits and its power of ten. -/
inductive IsDecimal : Bool → Nat → Int → Text → Prop
  | mk {negative : Bool} {sign t : Text} {digits : Nat} {exponent : Int}
      (hsign : IsSign negative sign) (ht : IsMagnitude digits exponent t) :
      IsDecimal negative digits exponent (sign ++ t)

/-- The exponent of a power of ten is read after its sign. -/
theorem readExponent?_cons (letter : Char) (t : Text) :
    readExponent? (letter :: t) =
      if letter == 'e' || letter == 'E' then (readNatural? (unsign t).2).map (signed (unsign t).1)
      else none := by
  rcases sign_cases t with ⟨u, rfl⟩ | ⟨u, rfl⟩ | hhead
  · rfl
  · rfl
  · have hread : ∀ u, t ≠ '+' :: u ∧ t ≠ '-' :: u := fun u =>
      ⟨fun h => (hhead '+' (h ▸ rfl)).1 rfl, fun h => (hhead '-' (h ▸ rfl)).2 rfl⟩
    rw [unsign_of_head? hhead, readExponent?]
    · rfl
    · exact fun u h => (hread u).1 h
    · exact fun u h => (hread u).2 h

theorem readExponent?_eq_some_iff {n : Int} {t : Text} :
    readExponent? t = some n ↔ IsPower n t := by
  cases t with
  | nil =>
    constructor
    · rintro h
      cases h
      exact .none
    · rintro ⟨⟩
      rfl
  | cons letter t =>
    have hpower : IsPower n (letter :: t) ↔ (letter = 'e' ∨ letter = 'E') ∧ IsWhole n t :=
      ⟨fun h => by cases h with | letter hletter hwhole => exact ⟨hletter, hwhole⟩,
        fun h => .letter h.1 h.2⟩
    rw [readExponent?_cons, hpower, isWhole_iff]
    simp only [Bool.or_eq_true, beq_iff_eq]
    split
    case isTrue h =>
      simp only [h, true_and, Option.map_eq_some_iff, readNatural?_eq_some_iff]
      constructor
      · rintro ⟨m, ⟨hdigits, rfl⟩, heq⟩
        exact ⟨hdigits, heq⟩
      · rintro ⟨hdigits, heq⟩
        exact ⟨_, ⟨hdigits, rfl⟩, heq⟩
    case isFalse h => simp [h]

theorem IsPower.head {n : Int} {t : Text} (h : IsPower n t) :
    ∀ c ∈ t.head?, isDigit c = false ∧ c ≠ '.' := by
  cases h with
  | none => simp
  | letter hletter _ =>
    intro c hc
    cases hc
    rcases hletter with rfl | rfl <;> exact ⟨by decide, by decide⟩

theorem exists_isFraction (t : Text) :
    ∃ point, IsFraction (fraction t).1 point ∧ t = point ++ (fraction t).2 := by
  unfold fraction
  split
  · rename_i t
    refine ⟨_, .point fun c hc => List.all_eq_true.mp List.all_takeWhile c hc, ?_⟩
    rw [List.cons_append, List.takeWhile_append_dropWhile]
  · exact ⟨_, .none, rfl⟩

theorem fraction_append {digits point t : Text} (hpoint : IsFraction digits point)
    (ht : ∀ c ∈ t.head?, isDigit c = false ∧ c ≠ '.') : fraction (point ++ t) = (digits, t) := by
  cases hpoint with
  | none =>
    cases t with
    | nil => rfl
    | cons c t =>
      have hc : c ≠ '.' := (ht c rfl).2
      unfold fraction
      split
      · simp_all
      · rfl
  | point hdigits =>
    obtain ⟨htake, hdrop⟩ := span_append hdigits fun c hc => (ht c hc).1
    rw [List.cons_append, fraction, htake, hdrop]

/-- A number begins with a digit or a point. -/
theorem IsMagnitude.head {n : Nat} {e : Int} {t : Text} (h : IsMagnitude n e t) :
    ∃ c rest, t = c :: rest ∧ (isDigit c ∨ c = '.') := by
  obtain ⟨hwhole, hpoint, hsome, -⟩ := h
  rename_i whole digits point power _
  cases whole with
  | cons c rest => exact ⟨c, _, rfl, .inl (hwhole c List.mem_cons_self)⟩
  | nil =>
    cases hpoint with
    | none => exact absurd rfl hsome
    | point _ => exact ⟨'.', _, rfl, .inr rfl⟩

/-- No number is a name. -/
theorem IsMagnitude.map_toLower_ne {n : Nat} {e : Int} {t : Text} (h : IsMagnitude n e t) :
    t.map Char.toLower ∉ ["inf".toList, "infinity".toList, "nan".toList] := by
  obtain ⟨c, rest, rfl, hc⟩ := h.head
  have hlower : c.toLower ≠ 'i' ∧ c.toLower ≠ 'n' := by
    rcases hc with hc | rfl
    · rw [toLower_of_isDigit hc]
      exact ⟨ne_of_holds hc rfl, ne_of_holds hc rfl⟩
    · decide
  intro hmem
  simp only [List.map_cons, List.mem_cons, List.not_mem_nil, or_false] at hmem
  rcases hmem with hmem | hmem | hmem
  · exact hlower.1 (List.cons.inj hmem).1
  · exact hlower.1 (List.cons.inj hmem).1
  · exact hlower.2 (List.cons.inj hmem).1

theorem readUnsigned?_eq_finite_iff {negative sign : Bool} {n : Nat} {e : Int} {t : Text} :
    readUnsigned? negative t = some (.finite sign n e) ↔ sign = negative ∧ IsMagnitude n e t := by
  constructor
  · intro h
    unfold readUnsigned? at h
    simp only at h
    split at h
    · cases h
    · split at h
      · cases h
      · split at h
        · cases h
        · rename_i hsome
          obtain ⟨m, hpower, heq⟩ := Option.map_eq_some_iff.mp h
          obtain ⟨point, hpoint, hrest⟩ := exists_isFraction (t.dropWhile isDigit)
          have hwhole : ∀ c ∈ t.takeWhile isDigit, isDigit c := fun c hc =>
            List.all_eq_true.mp List.all_takeWhile c hc
          have hmagnitude := IsMagnitude.mk hwhole hpoint
            (fun hnil => hsome (by simp [List.append_eq_nil_iff.mp hnil]))
            (readExponent?_eq_some_iff.mp hpower)
          rw [← hrest, List.takeWhile_append_dropWhile] at hmagnitude
          cases heq
          exact ⟨rfl, hmagnitude⟩
  · rintro ⟨rfl, h⟩
    have hname := h.map_toLower_ne
    obtain ⟨hwhole, hpoint, hsome, hpower⟩ := h
    rename_i whole digits point power m
    have hhead : ∀ c ∈ (point ++ power).head?, isDigit c = false := by
      cases hpoint with
      | none => exact fun c hc => (hpower.head c hc).1
      | point _ =>
        intro c hc
        cases hc
        decide
    obtain ⟨htake, hdrop⟩ := span_append hwhole hhead
    simp only [List.mem_cons, List.not_mem_nil, or_false, not_or] at hname
    simp only [readUnsigned?, htake, hdrop, fraction_append hpoint hpower.head,
      readExponent?_eq_some_iff.mpr hpower]
    rw [if_neg (by simp only [Bool.or_eq_true, beq_iff_eq, hname, or_self, not_false_eq_true]),
      if_neg (by simp only [beq_iff_eq, hname, not_false_eq_true]), if_neg (by simpa using hsome)]
    rfl

/-- A decimal number is read after its sign. -/
theorem readDecimal_eq (t : Text) :
    readDecimal t =
      match readUnsigned? (unsign t).1 (unsign t).2 with
      | some value => .ok value
      | none => .error (if t.isEmpty then .empty else .malformed) := by
  rcases sign_cases t with ⟨u, rfl⟩ | ⟨u, rfl⟩ | hhead
  · rfl
  · rfl
  · rw [unsign_of_head? hhead]
    unfold readDecimal
    split
    · exact absurd rfl (hhead '+' rfl).1
    · exact absurd rfl (hhead '-' rfl).2
    · rfl

/-- **The texts that are read as decimal numbers** are those of the grammar, beside the names of
values that are not finite. -/
theorem readDecimal_eq_finite_iff {negative : Bool} {n : Nat} {e : Int} {t : Text} :
    readDecimal t = .ok (.finite negative n e) ↔ IsDecimal negative n e t := by
  have hread : readDecimal t = .ok (.finite negative n e) ↔
      readUnsigned? (unsign t).1 (unsign t).2 = some (.finite negative n e) := by
    rw [readDecimal_eq]
    cases readUnsigned? (unsign t).1 (unsign t).2 <;> simp
  rw [hread, readUnsigned?_eq_finite_iff]
  constructor
  · rintro ⟨rfl, h⟩
    obtain ⟨sign, hsign, heq⟩ := exists_isSign t
    have hdecimal := IsDecimal.mk hsign h
    rwa [← heq] at hdecimal
  · rintro ⟨hsign, h⟩
    obtain ⟨c, rest, rfl, hc⟩ := h.head
    have hne : ∀ a ∈ (c :: rest).head?, a ≠ '+' ∧ a ≠ '-' := by
      intro a ha
      cases ha
      rcases hc with hc | rfl
      · exact ne_sign_of_isDigit hc
      · decide
    rw [unsign_append hsign hne]
    exact ⟨rfl, h⟩

end Motion.Text
