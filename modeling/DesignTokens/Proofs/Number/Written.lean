import DesignTokens.Proofs.Number.DocumentText

/-!
# Literals as written

What is read as a literal is a sign, which may be missing, and an unsigned literal: digits with at
most one point and at least one digit, and maybe an exponent. Nothing else is read as one, and each
of them is.
-/

namespace DesignTokens

/-! ## The parts of a literal -/

/-- What can stand in front of an unsigned literal. -/
inductive LiteralSign where
  | none
  | plus
  | minus
deriving DecidableEq, Repr

namespace LiteralSign

def chars : LiteralSign → List Char
  | none => []
  | plus => ['+']
  | minus => ['-']

def negative (s : LiteralSign) : Bool := s == minus

end LiteralSign

/-- The exponent of a literal: a letter, a sign and digits. -/
structure ExponentText where
  mark : Char
  sign : LiteralSign
  digits : List Char
  marks : mark = 'e' ∨ mark = 'E'
  nonempty : digits ≠ []
  ascii : ∀ c ∈ digits, Text.isAsciiDigit c = true

namespace ExponentText

def chars (e : ExponentText) : List Char := e.mark :: (e.sign.chars ++ e.digits)

def value (e : ExponentText) : Int :=
  if e.sign.negative then -(DecimalLiteral.exponentMagnitude e.digits : Int)
  else DecimalLiteral.exponentMagnitude e.digits

end ExponentText

/-- A literal without a sign. -/
structure UnsignedLiteral where
  whole : List Char
  /-- The digits behind the point, if there is one. -/
  fraction : Option (List Char)
  exponent : Option ExponentText
  nonempty : whole ++ fraction.getD [] ≠ []
  ascii : ∀ c ∈ whole ++ fraction.getD [], Text.isAsciiDigit c = true

namespace UnsignedLiteral

variable (u : UnsignedLiteral)

/-- The point and the digits behind it. -/
def pointed : List Char := (u.fraction.map ('.' :: ·)).getD []

def ending : List Char := (u.exponent.map ExponentText.chars).getD []

def chars : List Char := u.whole ++ (u.pointed ++ u.ending)

/-- The literal with a sign in front of it. -/
def literal (negative : Bool) : DecimalLiteral :=
  ⟨negative, u.whole, u.fraction.getD [], (u.exponent.map ExponentText.value).getD 0⟩

end UnsignedLiteral

/-! ## Reading -/

namespace DecimalLiteral

theorem splitSign_chars (sign : LiteralSign) {c : Char} (hplus : c ≠ '+') (hminus : c ≠ '-')
    (rest : List Char) : splitSign (sign.chars ++ c :: rest) = (sign.negative, c :: rest) := by
  cases sign with
  | plus | minus => rfl
  | none =>
    show splitSign (c :: rest) = _
    unfold splitSign
    split
    · rename_i heq
      exact absurd (List.cons.inj heq).1 hminus
    · rename_i heq
      exact absurd (List.cons.inj heq).1 hplus
    · rfl

theorem exists_of_splitSign {s rest : List Char} {negative : Bool}
    (h : splitSign s = (negative, rest)) :
    ∃ sign : LiteralSign, s = sign.chars ++ rest ∧ negative = sign.negative := by
  unfold splitSign at h
  split at h
  all_goals cases h
  · exact ⟨.minus, rfl, rfl⟩
  · exact ⟨.plus, rfl, rfl⟩
  · exact ⟨.none, rfl, rfl⟩

theorem sign_of_isAsciiDigit {c : Char} (h : Text.isAsciiDigit c = true) : c ≠ '+' ∧ c ≠ '-' := by
  constructor
  · rintro rfl
    exact absurd h (by decide)
  · rintro rfl
    exact absurd h (by decide)

theorem readExponent_chars (e : ExponentText) : readExponent e.chars = some e.value := by
  have hall : e.digits.all Text.isAsciiDigit = true := List.all_eq_true.2 e.ascii
  have hsplit : splitSign (e.sign.chars ++ e.digits) = (e.sign.negative, e.digits) := by
    cases hdigits : e.digits with
    | nil => exact absurd hdigits e.nonempty
    | cons c rest =>
      have hc := sign_of_isAsciiDigit (e.ascii c (by rw [hdigits]; exact List.mem_cons_self))
      exact splitSign_chars e.sign hc.1 hc.2 rest
  rw [ExponentText.chars, readExponent, if_pos e.marks, hsplit]
  exact if_pos ⟨e.nonempty, hall⟩

theorem readExponent_eq_some {s : List Char} {k : Int} (h : readExponent s = some k) :
    (s = [] ∧ k = 0) ∨ ∃ e : ExponentText, s = e.chars ∧ k = e.value := by
  cases s with
  | nil => exact .inl ⟨rfl, (Option.some.inj h).symm⟩
  | cons mark rest =>
    rcases hsplit : splitSign rest with ⟨negative, digits⟩
    obtain ⟨sign, rfl, rfl⟩ := exists_of_splitSign hsplit
    rw [readExponent, hsplit] at h
    split at h
    · rename_i hmark
      simp only at h
      split at h
      · rename_i hdigits
        exact .inr ⟨⟨mark, sign, digits, hmark, hdigits.1, List.all_eq_true.1 hdigits.2⟩, rfl,
          (Option.some.inj h).symm⟩
      · cases h
    · cases h

theorem exists_of_splitDigits {s t rest : List Char} (h : splitDigits s = (t, rest)) :
    s = t ++ rest ∧ ∀ c ∈ t, Text.isAsciiDigit c = true := by
  obtain ⟨rfl, rfl⟩ := Prod.mk.inj h
  exact ⟨List.takeWhile_append_dropWhile.symm, List.all_eq_true.1 List.all_takeWhile⟩

end DecimalLiteral

namespace UnsignedLiteral

variable (u : UnsignedLiteral)

theorem readExponent_ending : DecimalLiteral.readExponent u.ending =
    some ((u.exponent.map ExponentText.value).getD 0) := by
  rw [ending]
  cases u.exponent with
  | none => rfl
  | some e => exact DecimalLiteral.readExponent_chars e

theorem head?_ending : ∀ c ∈ u.ending.head?, c = 'e' ∨ c = 'E' := by
  rw [ending]
  cases u.exponent with
  | none => exact fun c hc => absurd hc (by simp)
  | some e =>
    intro c hc
    cases hc
    exact e.marks

theorem stops_ending : Stops Text.isAsciiDigit u.ending := by
  intro c hc
  obtain rfl | rfl := u.head?_ending c hc
  · decide
  · decide

/-- A literal begins with a digit or with its point. -/
theorem exists_chars_eq_cons : ∃ c rest, u.chars = c :: rest ∧
    (Text.isAsciiDigit c = true ∨ c = '.') := by
  have hne := u.nonempty
  have hascii := u.ascii
  rw [chars, pointed]
  cases hwhole : u.whole with
  | cons c rest =>
    rw [hwhole] at hascii
    exact ⟨c, _, rfl, .inl (hascii c List.mem_cons_self)⟩
  | nil =>
    cases hfraction : u.fraction with
    | none =>
      rw [hwhole, hfraction] at hne
      exact absurd rfl hne
    | some fraction => exact ⟨'.', _, rfl, .inr rfl⟩

end UnsignedLiteral

namespace DecimalLiteral

theorem splitSign_unsigned (sign : LiteralSign) (u : UnsignedLiteral) :
    splitSign (sign.chars ++ u.chars) = (sign.negative, u.chars) := by
  obtain ⟨c, rest, hchars, hc⟩ := u.exists_chars_eq_cons
  have hsign : c ≠ '+' ∧ c ≠ '-' := by
    obtain hdigit | rfl := hc
    · exact sign_of_isAsciiDigit hdigit
    · decide
  rw [hchars]
  exact splitSign_chars sign hsign.1 hsign.2 rest

/-- **Every sign and unsigned literal is read.** -/
theorem read_unsigned (sign : LiteralSign) (u : UnsignedLiteral) :
    read (sign.chars ++ u.chars) = some (u.literal sign.negative) := by
  have hwhole : ∀ c ∈ u.whole, Text.isAsciiDigit c = true :=
    fun c hc => u.ascii c (List.mem_append_left _ hc)
  have hne := u.nonempty
  have hascii := u.ascii
  rw [read, splitSign_unsigned]
  cases hfraction : u.fraction with
  | none =>
    rw [hfraction, Option.getD_none, List.append_nil] at hne
    have hchars : u.chars = u.whole ++ u.ending := by
      rw [UnsignedLiteral.chars, UnsignedLiteral.pointed, hfraction]
      rfl
    rw [hchars]
    simp only [splitDigits_append hwhole u.stops_ending]
    split
    · rename_i rest hending
      exact absurd (u.head?_ending '.' (by rw [hending]; rfl)) (by decide)
    · simp only [hne, u.readExponent_ending, UnsignedLiteral.literal, hfraction, false_and,
        if_false, Option.map_some, Option.getD_none]
  | some fraction =>
    rw [hfraction, Option.getD_some] at hne hascii
    have hdigits : ∀ c ∈ fraction, Text.isAsciiDigit c = true :=
      fun c hc => hascii c (List.mem_append_right _ hc)
    have hchars : u.chars = u.whole ++ '.' :: (fraction ++ u.ending) := by
      rw [UnsignedLiteral.chars, UnsignedLiteral.pointed, hfraction]
      rfl
    have hpoint : Stops Text.isAsciiDigit ('.' :: (fraction ++ u.ending)) :=
      stops_cons (by decide) _
    have hsome : ¬ (u.whole = [] ∧ fraction = []) := fun h => hne (List.append_eq_nil_iff.2 h)
    rw [hchars]
    simp only [splitDigits_append hwhole hpoint, splitDigits_append hdigits u.stops_ending,
      u.readExponent_ending, UnsignedLiteral.literal, hfraction, hsome, if_false, Option.map_some,
      Option.getD_some]

/-- **Nothing else is read.** -/
theorem exists_of_read {s : List Char} {l : DecimalLiteral} (h : read s = some l) :
    ∃ (sign : LiteralSign) (u : UnsignedLiteral),
      s = sign.chars ++ u.chars ∧ l = u.literal sign.negative := by
  rcases hsplit : splitSign s with ⟨negative, unsigned⟩
  obtain ⟨sign, rfl, rfl⟩ := exists_of_splitSign hsplit
  rcases hfront : splitDigits unsigned with ⟨whole, afterWhole⟩
  obtain ⟨rfl, hwhole⟩ := exists_of_splitDigits hfront
  simp only [read, hsplit, hfront] at h
  have hsome {tail : List Char} {k : Int} (hk : readExponent tail = some k) :
      ∃ e : Option ExponentText, tail = (e.map ExponentText.chars).getD [] ∧
        k = (e.map ExponentText.value).getD 0 := by
    rcases readExponent_eq_some hk with ⟨rfl, rfl⟩ | ⟨e, rfl, rfl⟩
    · exact ⟨none, rfl, rfl⟩
    · exact ⟨some e, rfl, rfl⟩
  split at h
  · rename_i rest
    rcases hback : splitDigits rest with ⟨fraction, tail⟩
    obtain ⟨rfl, hfraction⟩ := exists_of_splitDigits hback
    rw [hback] at h
    simp only at h
    split at h
    · cases h
    · rename_i hne
      obtain ⟨k, hk, rfl⟩ := Option.map_eq_some_iff.1 h
      obtain ⟨e, rfl, rfl⟩ := hsome hk
      refine ⟨sign, ⟨whole, some fraction, e, ?_, ?_⟩, rfl, rfl⟩
      · exact fun heq => hne (List.append_eq_nil_iff.1 heq)
      · exact List.forall_mem_append.2 ⟨hwhole, hfraction⟩
  · split at h
    · cases h
    · rename_i hne
      obtain ⟨k, hk, rfl⟩ := Option.map_eq_some_iff.1 h
      obtain ⟨e, rfl, rfl⟩ := hsome hk
      refine ⟨sign, ⟨whole, none, e, ?_, ?_⟩, rfl, rfl⟩
      · exact fun heq => hne ⟨(List.append_eq_nil_iff.1 heq).1, rfl⟩
      · exact List.forall_mem_append.2 ⟨hwhole, fun c hc => absurd hc List.not_mem_nil⟩

end DecimalLiteral

/-! ## Exponents that are too large to count -/

namespace DecimalLiteral

theorem exponentMagnitude_or_enough (ds : List Char) :
    exponentMagnitude ds = decimalValue ds ∨
      exponentEnough ≤ exponentMagnitude ds ∧ exponentEnough ≤ decimalValue ds := by
  rw [decimalValue_eq]
  by_cases hsmall : Nat.ofDigitChars 10 ds 0 < exponentEnough
  · exact .inl (exponentMagnitude_eq hsmall)
  · refine .inr ⟨?_, Nat.le_of_not_lt hsmall⟩
    -- once it is large enough, a magnitude stays as it is
    have hkeep (ds : List Char) {n : Nat} (hn : exponentEnough ≤ n) :
        ds.foldl (fun n c => if n < exponentEnough then 10 * n + (c.toNat - '0'.toNat) else n) n =
          n := by
      induction ds with
      | nil => rfl
      | cons c ds ih => rw [List.foldl_cons, if_neg (Nat.not_lt.2 hn), ih]
    unfold exponentMagnitude
    generalize 0 = n at hsmall ⊢
    induction ds generalizing n with
    | nil => exact Nat.le_of_not_lt hsmall
    | cons c ds ih =>
      by_cases hn : n < exponentEnough
      · rw [Nat.ofDigitChars_cons] at hsmall
        rw [List.foldl_cons, if_pos hn]
        exact ih _ hsmall
      · rw [hkeep (c :: ds) (Nat.le_of_not_lt hn)]
        exact Nat.le_of_not_lt hn

theorem ofDigitChars_lt {ds : List Char} (h : ∀ c ∈ ds, Text.isAsciiDigit c = true) (n : Nat) :
    Nat.ofDigitChars 10 ds n < (n + 1) * 10 ^ ds.length := by
  induction ds generalizing n with
  | nil =>
    rw [Nat.ofDigitChars_nil, List.length_nil, Nat.pow_zero]
    omega
  | cons c ds ih =>
    rw [List.forall_mem_cons] at h
    have hc : c.toNat - '0'.toNat ≤ 9 := by
      have hdigit := h.1
      simp only [Text.isAsciiDigit, Bool.and_eq_true, decide_eq_true_eq] at hdigit
      have hzero : '0'.toNat = 48 := rfl
      have hnine : c.toNat ≤ 57 := hdigit.2
      omega
    rw [Nat.ofDigitChars_cons, List.length_cons, Nat.pow_succ']
    calc Nat.ofDigitChars 10 ds (10 * n + (c.toNat - '0'.toNat))
        < (10 * n + (c.toNat - '0'.toNat) + 1) * 10 ^ ds.length := ih h.2 _
      _ ≤ (n + 1) * 10 * 10 ^ ds.length := Nat.mul_le_mul_right _ (by omega)
      _ = (n + 1) * (10 * 10 ^ ds.length) := Nat.mul_assoc ..

theorem log2_decimalValue_lt {ds : List Char} (hne : decimalValue ds ≠ 0)
    (h : ∀ c ∈ ds, Text.isAsciiDigit c = true) : (decimalValue ds).log2 < 4 * ds.length := by
  have hlt := ofDigitChars_lt h 0
  rw [← decimalValue_eq, Nat.zero_add, Nat.one_mul] at hlt
  rw [Nat.log2_lt hne, Nat.pow_mul]
  exact hlt.trans_le (Nat.pow_le_pow_left (by decide) _)

end DecimalLiteral

namespace Binary64

-- Out of the range of doubles, the exponent does not matter.
theorem decimalCode_of_large {c : Nat} {e : Int} (hc : c ≠ 0) (he : 330 < e) :
    decimalCode c e = infinityCode := by
  rw [decimalCode, if_neg hc, if_pos (by omega)]

theorem decimalCode_of_small {c : Nat} {e : Int} (hc : c.log2 < 160000) (he : e ≤ -65536) :
    decimalCode c e = 0 := by
  rw [decimalCode]
  split
  · rfl
  · rw [if_neg (by omega), if_pos (by omega)]

end Binary64

/-- The number that the digits of an exponent show. -/
def ExponentText.power (e : ExponentText) : Int :=
  if e.sign.negative then -(decimalValue e.digits : Int) else decimalValue e.digits

namespace UnsignedLiteral

/-- The digits in front of the exponent. -/
def digits (u : UnsignedLiteral) : List Char := u.whole ++ u.fraction.getD []

def power (u : UnsignedLiteral) : Int := (u.exponent.map ExponentText.power).getD 0

/-- With up to forty thousand digits in front of it, an exponent has its full value. -/
theorem value_literal {u : UnsignedLiteral} (h : u.digits.length ≤ 40000) (negative : Bool) :
    (u.literal negative).value =
      .ofDecimal negative (decimalValue u.digits) (u.power - (u.fraction.getD []).length) := by
  have hfraction : (u.fraction.getD []).length ≤ 40000 :=
    Nat.le_trans (by rw [digits, List.length_append]; exact Nat.le_add_left _ _) h
  rw [DecimalLiteral.value, literal, Binary64.ofDecimal, Binary64.ofDecimal]
  refine congrArg (Binary64.ofCode negative) ?_
  show Binary64.decimalCode (decimalValue u.digits) _ = _
  rw [power]
  cases u.exponent with
  | none => rfl
  | some e =>
    simp only [Option.map_some, Option.getD_some, ExponentText.value, ExponentText.power]
    obtain heq | ⟨hlarge, hlarge'⟩ := DecimalLiteral.exponentMagnitude_or_enough e.digits
    · rw [heq]
    · rw [DecimalLiteral.exponentEnough] at hlarge hlarge'
      by_cases hzero : decimalValue u.digits = 0
      · rw [hzero, Binary64.decimalCode_zero, Binary64.decimalCode_zero]
      · have hlog : (decimalValue u.digits).log2 < 160000 :=
          (DecimalLiteral.log2_decimalValue_lt hzero u.ascii).trans_le (Nat.mul_le_mul_left 4 h)
        -- on either side the number is out of range, with the one exponent as with the other
        split
        · rw [Binary64.decimalCode_of_small hlog (by omega),
            Binary64.decimalCode_of_small hlog (by omega)]
        · rw [Binary64.decimalCode_of_large hzero (by omega),
            Binary64.decimalCode_of_large hzero (by omega)]

end UnsignedLiteral

end DesignTokens
