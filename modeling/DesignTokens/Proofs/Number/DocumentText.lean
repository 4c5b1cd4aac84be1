import DesignTokens.Json.Reader
import DesignTokens.Proofs.Number.PlainText
import DesignTokens.Proofs.Number.ReadBack
import DesignTokens.Proofs.Source.Read

/-!
# Numbers in documents read back

A finite number is written with a point or an exponent, so it is read as a number and not as a
whole number. The digits that are read are those of its shortest decimal, maybe with zeros behind
them, and the exponent moves the point back to where it was.
-/

namespace DesignTokens

/-! ## Digits -/

theorem head?_toDigits_ne {n : Nat} (h : n ≠ 0) : (Nat.toDigits 10 n).head? ≠ some '0' := by
  induction n using Nat.strongRecOn with
  | ind n ih =>
    by_cases hn : n < 10
    · have hall : ∀ k < 10, k ≠ 0 → Nat.digitChar k ≠ '0' := by decide
      rw [Nat.toDigits_of_lt_base hn]
      exact fun heq => hall n hn h (Option.some.inj heq)
    · rw [Nat.toDigits_of_base_le (by decide) (by omega),
        List.head?_append_of_ne_nil _ Nat.toDigits_ne_nil]
      exact ih (n / 10) (by omega) (by omega)

theorem lt_ten_pow_length_toDigits (n : Nat) : n < 10 ^ (Nat.toDigits 10 n).length :=
  (Nat.length_toDigits_le_iff (by decide) Nat.length_toDigits_pos).1 le_rfl

theorem length_toDigits_le_log2 (n : Nat) : (Nat.toDigits 10 n).length ≤ n.log2 + 1 := by
  rw [Nat.length_toDigits_le_iff (by decide) (Nat.succ_pos _)]
  exact Nat.lt_log2_self.trans_le (Nat.pow_le_pow_left (by decide) _)

theorem le_ofDigitChars (ds : List Char) (n : Nat) : n ≤ Nat.ofDigitChars 10 ds n := by
  induction ds generalizing n with
  | nil => exact le_rfl
  | cons c ds ih =>
    rw [Nat.ofDigitChars_cons]
    have hstep := ih (10 * n + (c.toNat - '0'.toNat))
    omega

namespace DecimalLiteral

-- An exponent that is not too large is read to its last digit.
theorem exponentMagnitude_eq {ds : List Char} (h : Nat.ofDigitChars 10 ds 0 < exponentEnough) :
    exponentMagnitude ds = Nat.ofDigitChars 10 ds 0 := by
  unfold exponentMagnitude
  generalize 0 = n at *
  induction ds generalizing n with
  | nil => rfl
  | cons c ds ih =>
    have hle := le_ofDigitChars (c :: ds) n
    rw [List.foldl_cons, if_pos (by omega), Nat.ofDigitChars_cons]
    rw [Nat.ofDigitChars_cons] at h
    exact ih _ h

theorem readExponent_mark {n : Nat} (hn : n < exponentEnough) (negative : Bool) :
    readExponent ('e' :: (if negative then '-' else '+') :: Nat.toDigits 10 n) =
      some (if negative then -(n : Int) else n) := by
  have hsign : splitSign ((if negative then '-' else '+') :: Nat.toDigits 10 n) =
      (negative, Nat.toDigits 10 n) := by
    cases negative <;> rfl
  have hall : (Nat.toDigits 10 n).all Text.isAsciiDigit = true :=
    List.all_eq_true.2 fun _ hc => isAsciiDigit_of_mem_toDigits hc
  have hvalue : Nat.ofDigitChars 10 (Nat.toDigits 10 n) 0 = n := Nat.ofDigitChars_ten_toDigits
  have hmagnitude : exponentMagnitude (Nat.toDigits 10 n) = n := by
    rw [exponentMagnitude_eq (by rw [hvalue]; exact hn), hvalue]
  rw [readExponent, if_pos (.inl rfl), hsign]
  simp only
  rw [if_pos ⟨Nat.toDigits_ne_nil, hall⟩, hmagnitude]

-- The exponent of a number whose point stands behind so many digits, written behind the first one.
theorem readExponent_point {point : Int} (h : (point - 1).natAbs < exponentEnough) :
    readExponent
      ('e' :: (if 0 < point then '+' else '-') :: Nat.toDigits 10 (point - 1).natAbs) =
      some (point - 1) := by
  have hmark := readExponent_mark h (decide (point ≤ 0))
  by_cases hfirst : 0 < point
  · rw [decide_eq_false (by omega)] at hmark
    rw [if_pos hfirst]
    refine Eq.trans hmark (congrArg some ?_)
    rw [if_neg (by decide)]
    omega
  · rw [decide_eq_true (by omega)] at hmark
    rw [if_neg hfirst]
    refine Eq.trans hmark (congrArg some ?_)
    rw [if_pos rfl]
    omega

end DecimalLiteral

/-! ## Texts of literals -/

/-- A literal without its sign, as written: digits, maybe a point with more digits, and maybe an
exponent behind its mark. -/
structure LiteralText where
  whole : List Char
  fraction : List Char
  mark : List Char
  exponent : Int
  nonempty : whole ≠ []
  digits : ∀ c ∈ whole ++ fraction, Text.isAsciiDigit c = true
  marked : mark = [] ∨ ∃ rest, mark = 'e' :: rest
  means : DecimalLiteral.readExponent mark = some exponent

namespace LiteralText

def tail (t : LiteralText) : List Char :=
  (if t.fraction = [] then [] else '.' :: t.fraction) ++ t.mark

def chars (t : LiteralText) : List Char := t.whole ++ t.tail

def literal (t : LiteralText) (negative : Bool) : DecimalLiteral :=
  ⟨negative, t.whole, t.fraction, t.exponent⟩

def sign (negative : Bool) : List Char := if negative then ['-'] else []

variable (t : LiteralText)

theorem stops_mark : Stops Text.isAsciiDigit t.mark := by
  obtain hmark | ⟨rest, hmark⟩ := t.marked
  · rw [hmark]
    exact stops_nil _
  · rw [hmark]
    exact stops_cons (by decide) _

theorem stops_tail : Stops Text.isAsciiDigit t.tail := by
  rw [tail]
  split
  · exact t.stops_mark
  · exact stops_cons (by decide) _

theorem whole_digits : ∀ c ∈ t.whole, Text.isAsciiDigit c = true :=
  fun c hc => t.digits c (List.mem_append_left _ hc)

theorem splitSign_chars (negative : Bool) :
    DecimalLiteral.splitSign (sign negative ++ t.chars) = (negative, t.chars) := by
  cases negative with
  | true => rfl
  | false =>
    have hdigits := t.whole_digits
    rw [chars]
    cases hw : t.whole with
    | nil => exact absurd hw t.nonempty
    | cons c rest =>
      exact DecimalLiteral.splitSign_of_digit (hdigits c (by rw [hw]; exact List.mem_cons_self)) _

theorem read_chars (negative : Bool) :
    DecimalLiteral.read (sign negative ++ t.chars) = some (t.literal negative) := by
  have hfraction : ∀ c ∈ t.fraction, Text.isAsciiDigit c = true :=
    fun c hc => t.digits c (List.mem_append_right _ hc)
  have hwhole := DecimalLiteral.splitDigits_append t.whole_digits t.stops_tail
  rw [DecimalLiteral.read, t.splitSign_chars]
  simp only [chars, hwhole]
  by_cases hf : t.fraction = []
  · -- without a point the exponent stands right behind the digits
    have htail : t.tail = t.mark := by rw [tail, if_pos hf, List.nil_append]
    have hmeans := t.means
    obtain hmark | ⟨rest, hmark⟩ := t.marked
    all_goals
      rw [htail, hmark]
      rw [hmark] at hmeans
      show (if t.whole = [] ∧ ([] : List Char) = [] then none
        else (DecimalLiteral.readExponent _).map (DecimalLiteral.mk negative t.whole [] ·)) = _
      rw [if_neg fun h => t.nonempty h.1, literal, hf]
      exact congrArg (Option.map (DecimalLiteral.mk negative t.whole [] ·)) hmeans
  · have htail : t.tail = '.' :: (t.fraction ++ t.mark) := by rw [tail, if_neg hf]; rfl
    have hpoint := DecimalLiteral.splitDigits_append hfraction t.stops_mark
    simp only [htail, hpoint, t.means, hf, and_false, if_false, literal, Option.map_some]

-- A number text has digits behind its point.
theorem point_tail : (decide (t.tail.head? = some '.') && t.fraction.isEmpty) = false := by
  by_cases hf : t.fraction = []
  · have hhead : t.tail.head? ≠ some '.' := by
      rw [tail, if_pos hf, List.nil_append]
      obtain hmark | ⟨rest, hmark⟩ := t.marked
      · rw [hmark]
        decide
      · rw [hmark]
        exact fun h => absurd (Option.some.inj h) (by decide)
    rw [decide_eq_false hhead, Bool.false_and]
  · have hfraction : t.fraction.isEmpty = false := List.isEmpty_eq_false_iff.2 hf
    rw [hfraction, Bool.and_false]

-- Digits alone are a whole number if it fits, and a double otherwise.
theorem readNumber_sign_chars (negative : Bool) (hwhole : Json.wellFormedWhole t.whole = true) :
    Json.readNumber (sign negative ++ t.chars) =
      if t.tail.isEmpty then
        if negative then
          if 0 < decimalValue t.whole ∧ decimalValue t.whole ≤ 0x8000000000000000 then
            some (.integer (-decimalValue t.whole))
          else some (.number (t.literal negative).value)
        else if decimalValue t.whole < 0x10000000000000000 then
          some (.integer (decimalValue t.whole))
        else some (.number (t.literal negative).value)
      else if (t.literal negative).value.isFinite then
        some (.number (t.literal negative).value)
      else none := by
  have hplus : ∀ rest, sign negative ++ t.chars ≠ '+' :: rest := by
    intro rest heq
    have hsplit := t.splitSign_chars negative
    rw [heq] at hsplit
    have hchars : t.chars = rest := (Prod.mk.inj hsplit).2.symm
    rw [hchars] at heq
    have hlength := congrArg List.length heq
    cases negative with
    | true => cases heq
    | false => simp [sign] at hlength
  have hdrop : t.chars.dropWhile Text.isAsciiDigit = t.tail :=
    congrArg Prod.snd (DecimalLiteral.splitDigits_append t.whole_digits t.stops_tail)
  have hpoint : (decide (t.tail.head? = some '.') && (t.literal negative).fraction.isEmpty) =
      false := t.point_tail
  have hwhole' : Json.wellFormedWhole (t.literal negative).whole = true := hwhole
  unfold Json.readNumber
  split
  · rename_i rest heq
    exact absurd heq (hplus rest)
  · simp only [t.read_chars, t.splitSign_chars, hdrop, hwhole', hpoint, Bool.not_true,
      Bool.false_eq_true, if_false]
    rfl

theorem readNumber_chars (negative : Bool) (hwhole : Json.wellFormedWhole t.whole = true)
    (htail : t.tail ≠ []) (hfinite : (t.literal negative).value.isFinite = true) :
    Json.readNumber (sign negative ++ t.chars) = some (.number (t.literal negative).value) := by
  have hempty : t.tail.isEmpty = false := List.isEmpty_eq_false_iff.2 htail
  rw [t.readNumber_sign_chars negative hwhole, hempty, if_neg (by decide), if_pos hfinite]

end LiteralText

/-! ## The layouts of a decimal -/

namespace Binary64

theorem decimalCode_zero (e : Int) : decimalCode 0 e = 0 := if_pos rfl

-- More zeros behind whole digits, and the point moved by as much.
theorem decimalCode_zero_behind {c k : Nat} (hsmall : c * tenToThe k < 10 ^ 16) (hk : k ≤ 16) :
    decimalCode (c * tenToThe k * 10) (-1) = decimalCode c k := by
  by_cases hc : c = 0
  · rw [hc, Nat.zero_mul, Nat.zero_mul, decimalCode_zero, decimalCode_zero]
  · have hpos := tenToThe_pos k
    have hne : c * tenToThe k * 10 ≠ 0 := by
      have := Nat.mul_ne_zero hc hpos.ne'
      omega
    have hle : c ≤ c * tenToThe k := Nat.le_mul_of_pos_right c hpos
    have hlog : c.log2 < 54 := (Nat.log2_lt hc).2 (by omega)
    have hlog' : (c * tenToThe k * 10).log2 < 57 := (Nat.log2_lt hne).2 (by omega)
    have hten : tenToThe (-(-1 : Int)).toNat = 1 * 10 := rfl
    unfold decimalCode
    rw [if_neg hne, if_neg (by omega), if_neg (by omega), if_neg (by decide), hten,
      nearestCode_mul_right _ _ (by decide), if_neg hc, if_neg (by omega), if_neg (by omega),
      if_pos (by omega), Int.toNat_natCast]

end Binary64

open Binary64 in
/-- A text shows a decimal: it is a number text and no whole number, and it is read to the double
nearest to the decimal. -/
structure LiteralText.ShowsDecimal (t : LiteralText) (d : Decimal) : Prop where
  whole : Json.wellFormedWhole t.whole = true
  tail : t.tail ≠ []
  code : decimalCode (Nat.ofDigitChars 10 (t.whole ++ t.fraction) 0)
    (t.exponent - t.fraction.length) = codeOf d

theorem wellFormedWhole_of_head? {s : List Char} (hne : s ≠ []) (h : s.head? ≠ some '0') :
    Json.wellFormedWhole s = true := by
  unfold Json.wellFormedWhole
  split
  · exact absurd rfl hne
  · exact absurd rfl h
  · rfl

theorem wellFormedWhole_singleton (c : Char) : Json.wellFormedWhole [c] = true := by
  by_cases hc : c = '0'
  · rw [hc]
    rfl
  · exact wellFormedWhole_of_head? (List.cons_ne_nil c []) fun h => hc (Option.some.inj h)

namespace Decimal

variable {d : Decimal}

theorem digits_ascii : ∀ c ∈ d.digits, Text.isAsciiDigit c = true :=
  fun _ hc => isAsciiDigit_of_mem_toDigits hc

theorem length_digits_pos : 0 < d.digits.length := Nat.length_toDigits_pos

theorem ofDigitChars_digits : Nat.ofDigitChars 10 d.digits 0 = d.coefficient :=
  Nat.ofDigitChars_ten_toDigits

theorem digits_ne_nil : d.digits ≠ [] := Nat.toDigits_ne_nil

-- All digits of the coefficient, and the point where the exponent has it.
theorem code_of_fraction {t : LiteralText} (hexponent : t.exponent = 0)
    (hdigits : Nat.ofDigitChars 10 (t.whole ++ t.fraction) 0 = d.coefficient)
    (hlength : (t.fraction.length : Int) = -d.exponent) :
    Binary64.decimalCode (Nat.ofDigitChars 10 (t.whole ++ t.fraction) 0)
      (t.exponent - t.fraction.length) = Binary64.codeOf d := by
  have hpoint : (0 : Int) - -d.exponent = d.exponent := by omega
  rw [hdigits, hexponent, hlength, hpoint]
  rfl

-- A whole number: zeros up to the point, and one behind it.
theorem exists_zerosBehind (hc : d.coefficient ≠ 0) (hpoint : d.point ≤ 16) {k : Nat}
    (hk : d.exponent = k) :
    ∃ t : LiteralText, t.chars = d.digits ++ List.replicate k '0' ++ ['.', '0'] ∧
      t.ShowsDecimal d := by
  have hvalue := d.ofDigitChars_digits
  have hexponent : d.point = d.digits.length + d.exponent := rfl
  let t : LiteralText := {
    whole := d.digits ++ List.replicate k '0'
    fraction := ['0']
    mark := []
    exponent := 0
    nonempty := List.append_ne_nil_of_left_ne_nil d.digits_ne_nil _
    digits := by
      intro c hc
      simp only [List.mem_append, List.mem_singleton] at hc
      rcases hc with (hc | hc) | rfl
      · exact d.digits_ascii c hc
      · exact isAsciiDigit_of_mem_zeros hc
      · rfl
    marked := .inl rfl
    means := rfl }
  refine ⟨t, rfl, wellFormedWhole_of_head? t.nonempty ?_, List.cons_ne_nil _ _, ?_⟩
  · show (d.digits ++ List.replicate k '0').head? ≠ some '0'
    rw [List.head?_append_of_ne_nil _ d.digits_ne_nil]
    exact head?_toDigits_ne hc
  · have hlt : d.coefficient * tenToThe k < 10 ^ 16 := by
      have hcoefficient : d.coefficient < 10 ^ d.digits.length := lt_ten_pow_length_toDigits _
      calc d.coefficient * tenToThe k
          < 10 ^ d.digits.length * tenToThe k :=
            Nat.mul_lt_mul_of_pos_right hcoefficient (tenToThe_pos k)
        _ = 10 ^ (d.digits.length + k) := (Nat.pow_add ..).symm
        _ ≤ 10 ^ 16 := Nat.pow_le_pow_right (by decide) (by omega)
    have hten : 10 ^ k * d.coefficient = d.coefficient * tenToThe k := Nat.mul_comm ..
    have hdigits : Nat.ofDigitChars 10 (t.whole ++ t.fraction) 0 =
        d.coefficient * tenToThe k * 10 := by
      rw [Nat.ofDigitChars_append, Nat.ofDigitChars_append, hvalue,
        Nat.ofDigitChars_replicate_zero, Nat.ofDigitChars_cons, Nat.ofDigitChars_nil, hten,
        Nat.mul_comm]
      rfl
    rw [hdigits, Binary64.codeOf, hk]
    exact Binary64.decimalCode_zero_behind hlt (by omega)

-- The point between the digits.
theorem exists_pointInside (hc : d.coefficient ≠ 0) (hfirst : 0 < d.point)
    (hlen : d.point < d.digits.length) :
    ∃ t : LiteralText,
      t.chars = d.digits.take d.point.toNat ++ '.' :: d.digits.drop d.point.toNat ∧
        t.ShowsDecimal d := by
  have hexponent : d.point = d.digits.length + d.exponent := rfl
  have htake : d.digits.take d.point.toNat ≠ [] := by
    rw [Ne, List.take_eq_nil_iff, not_or]
    exact ⟨by omega, d.digits_ne_nil⟩
  have hdrop : d.digits.drop d.point.toNat ≠ [] := by
    rw [Ne, List.drop_eq_nil_iff]
    omega
  let t : LiteralText := {
    whole := d.digits.take d.point.toNat
    fraction := d.digits.drop d.point.toNat
    mark := []
    exponent := 0
    nonempty := htake
    digits := by
      rw [List.take_append_drop]
      exact d.digits_ascii
    marked := .inl rfl
    means := rfl }
  have htail : t.tail = '.' :: d.digits.drop d.point.toNat := by
    rw [LiteralText.tail, if_neg hdrop, List.append_nil]
  refine ⟨t, congrArg (t.whole ++ ·) htail, wellFormedWhole_of_head? htake ?_, ?_, ?_⟩
  · rw [List.head?_take, if_neg (by omega)]
    exact head?_toDigits_ne hc
  · rw [htail]
    exact List.cons_ne_nil _ _
  · have hlength : (t.fraction.length : Int) = -d.exponent := by
      show ((d.digits.drop d.point.toNat).length : Int) = _
      rw [List.length_drop]
      omega
    have hdigits : Nat.ofDigitChars 10 (t.whole ++ t.fraction) 0 = d.coefficient := by
      show Nat.ofDigitChars 10 (d.digits.take d.point.toNat ++ d.digits.drop d.point.toNat) 0 = _
      rw [List.take_append_drop]
      exact d.ofDigitChars_digits
    exact code_of_fraction rfl hdigits hlength

-- Zeros between the point and the digits.
theorem exists_zerosBefore (hpoint : d.point ≤ 0) :
    ∃ t : LiteralText,
      t.chars = '0' :: '.' :: (List.replicate (-d.point).toNat '0' ++ d.digits) ∧
        t.ShowsDecimal d := by
  have hexponent : d.point = d.digits.length + d.exponent := rfl
  have hfraction : List.replicate (-d.point).toNat '0' ++ d.digits ≠ [] :=
    List.append_ne_nil_of_right_ne_nil _ d.digits_ne_nil
  let t : LiteralText := {
    whole := ['0']
    fraction := List.replicate (-d.point).toNat '0' ++ d.digits
    mark := []
    exponent := 0
    nonempty := List.cons_ne_nil _ _
    digits := by
      intro c hc
      simp only [List.mem_append, List.mem_singleton] at hc
      rcases hc with rfl | hc | hc
      · rfl
      · exact isAsciiDigit_of_mem_zeros hc
      · exact d.digits_ascii c hc
    marked := .inl rfl
    means := rfl }
  have htail : t.tail = '.' :: (List.replicate (-d.point).toNat '0' ++ d.digits) := by
    rw [LiteralText.tail, if_neg hfraction, List.append_nil]
  refine ⟨t, congrArg (t.whole ++ ·) htail, rfl, ?_, ?_⟩
  · rw [htail]
    exact List.cons_ne_nil _ _
  · have hlength : (t.fraction.length : Int) = -d.exponent := by
      show ((List.replicate (-d.point).toNat '0' ++ d.digits).length : Int) = _
      rw [List.length_append, List.length_replicate]
      omega
    have hdigits : Nat.ofDigitChars 10 (t.whole ++ t.fraction) 0 = d.coefficient := by
      show Nat.ofDigitChars 10 ('0' :: (List.replicate (-d.point).toNat '0' ++ d.digits)) 0 = _
      rw [Nat.ofDigitChars_cons, Nat.ofDigitChars_append, Nat.ofDigitChars_replicate_zero]
      exact d.ofDigitChars_digits
    exact code_of_fraction rfl hdigits hlength

theorem exists_positional (hc : d.coefficient ≠ 0) (hpoint : d.point ≤ 16) :
    ∃ t : LiteralText, t.chars = positionalText true d.digits d.point ∧ t.ShowsDecimal d := by
  have hexponent : d.point = d.digits.length + d.exponent := rfl
  unfold positionalText
  split
  · exact exists_zerosBehind hc hpoint (by omega)
  · split
    · exact exists_pointInside hc (by omega) (by omega)
    · exact exists_zerosBefore (by omega)

theorem exists_scientific (h : Binary64.Bounded d) :
    ∃ t : LiteralText, t.chars = scientificText d.digits d.point ∧ t.ShowsDecimal d := by
  have hascii := d.digits_ascii
  have hpos := d.length_digits_pos
  have hvalue := d.ofDigitChars_digits
  have hexponent : d.point = d.digits.length + d.exponent := rfl
  have hlength : d.digits.length ≤ d.coefficient.log2 + 1 := length_toDigits_le_log2 _
  have hlog := h.coefficient
  obtain ⟨hlow, hhigh⟩ := h.exponent
  have hsmall : (d.point - 1).natAbs < DecimalLiteral.exponentEnough := by
    unfold DecimalLiteral.exponentEnough
    omega
  obtain ⟨first, others, hsplit⟩ := List.exists_cons_of_length_pos hpos
  let t : LiteralText := {
    whole := [first]
    fraction := others
    mark := 'e' :: (if 0 < d.point then '+' else '-') :: Nat.toDigits 10 (d.point - 1).natAbs
    exponent := d.point - 1
    nonempty := List.cons_ne_nil _ _
    digits := by
      show ∀ c ∈ first :: others, Text.isAsciiDigit c = true
      rw [← hsplit]
      exact hascii
    marked := .inr ⟨_, rfl⟩
    means := DecimalLiteral.readExponent_point hsmall }
  refine ⟨t, ?_, ?_, ?_, ?_⟩
  · rw [scientificText, hsplit]
    cases others <;> rfl
  · exact wellFormedWhole_singleton first
  · exact List.append_ne_nil_of_right_ne_nil _ (List.cons_ne_nil _ _)
  · have hfraction : (others.length : Int) = d.digits.length - 1 := by
      rw [hsplit, List.length_cons]
      omega
    show Binary64.decimalCode (Nat.ofDigitChars 10 (first :: others) 0) (d.point - 1 - others.length)
      = Binary64.decimalCode d.coefficient d.exponent
    rw [← hsplit, hvalue, hfraction]
    exact congrArg _ (by omega)

end Decimal

/-! ## Numbers -/

namespace Binary64

theorem ofCode_code {x : Binary64} (h : x.isFinite = true) : ofCode x.negative x.code = x := by
  simp only [isFinite, decide_eq_true_eq] at h
  have hmin : min infinityCode x.code = x.code := Nat.min_eq_right h.le
  simp only [ofCode, hmin]

/-- The text of a finite number is that of a literal which stands for the number. -/
theorem exists_literalText {x : Binary64} (h : x.isFinite = true) :
    ∃ t : LiteralText, t.chars = NumberStyle.document.magnitudeText x ∧
      Json.wellFormedWhole t.whole = true ∧ t.tail ≠ [] ∧ (t.literal x.negative).value = x := by
  unfold NumberStyle.magnitudeText
  by_cases hzero : x.code = 0
  · let t : LiteralText := {
      whole := ['0']
      fraction := ['0']
      mark := []
      exponent := 0
      nonempty := List.cons_ne_nil _ _
      digits := List.all_eq_true.1 (by decide)
      marked := .inl rfl
      means := rfl }
    refine ⟨t, by rw [if_pos hzero]; rfl, rfl, List.cons_ne_nil _ _, ?_⟩
    rw [← ofCode_code h, hzero]
    rfl
  · rw [if_neg hzero]
    obtain ⟨hbounded, hcode⟩ := codeOf_shortest NumberStyle.document.tie h hzero
    generalize x.shortest NumberStyle.document.tie = d at *
    have hcoefficient : d.coefficient ≠ 0 := by
      intro hc
      rw [codeOf, hc, decimalCode_zero] at hcode
      exact hzero hcode.symm
    have htext : ∃ t : LiteralText, t.chars = NumberStyle.document.decimalText d ∧
        t.ShowsDecimal d := by
      unfold NumberStyle.decimalText
      split
      · rename_i hpositional
        simp only [NumberStyle.document, Bool.and_eq_true, decide_eq_true_eq] at hpositional
        exact Decimal.exists_positional hcoefficient hpositional.2
      · exact Decimal.exists_scientific hbounded
    obtain ⟨t, hchars, hshows⟩ := htext
    refine ⟨t, hchars, hshows.whole, hshows.tail, ?_⟩
    rw [DecimalLiteral.value, LiteralText.literal, ofDecimal, decimalValue_eq, hshows.code, hcode]
    exact ofCode_code h

end Binary64

theorem NumberStyle.toList_text (style : NumberStyle) {x : Binary64} (h : x.isFinite = true) :
    (style.text x).toList = LiteralText.sign x.negative ++ style.magnitudeText x := by
  have hnan : x.isNaN = false := by
    simp only [Binary64.isFinite, decide_eq_true_eq] at h
    simp only [Binary64.isNaN, decide_eq_false_iff_not]
    omega
  rw [text, hnan, if_neg (by decide), if_pos h, String.toList_ofList]
  rfl

namespace Json

theorem toList_numberText {x : Binary64} (h : x.isFinite = true) :
    (numberText x).toList =
      LiteralText.sign x.negative ++ NumberStyle.document.magnitudeText x := by
  rw [numberText, if_pos h, NumberStyle.toList_text _ h]

theorem readNumber_toDigits {n : Nat} (negative : Bool)
    (hn : if negative then 0 < n ∧ n ≤ 2 ^ 63 else n < 2 ^ 64) :
    readNumber (LiteralText.sign negative ++ Nat.toDigits 10 n) =
      some (.integer (if negative then -(n : Int) else n)) := by
  let t : LiteralText := {
    whole := Nat.toDigits 10 n
    fraction := []
    mark := []
    exponent := 0
    nonempty := Nat.toDigits_ne_nil
    digits := by
      rw [List.append_nil]
      exact fun c hc => isAsciiDigit_of_mem_toDigits hc
    marked := .inl rfl
    means := rfl }
  have hwhole : wellFormedWhole t.whole = true := by
    show wellFormedWhole (Nat.toDigits 10 n) = true
    by_cases hzero : n = 0
    · rw [hzero]
      decide
    · exact wellFormedWhole_of_head? Nat.toDigits_ne_nil (head?_toDigits_ne hzero)
  have hvalue : decimalValue t.whole = n := by
    rw [decimalValue_eq]
    exact Nat.ofDigitChars_ten_toDigits
  have hchars : t.chars = Nat.toDigits 10 n := List.append_nil _
  have hread := t.readNumber_sign_chars negative hwhole
  rw [hchars, hvalue] at hread
  rw [hread]
  cases negative with
  | true => exact if_pos hn
  | false => exact if_pos hn

/-- **The text of a finite number is read as that number.** -/
theorem readNumber_numberText {x : Binary64} (h : x.isFinite = true) :
    readNumber (numberText x).toList = some (.number x) := by
  obtain ⟨t, hchars, hwhole, htail, hvalue⟩ := Binary64.exists_literalText h
  have hfinite : (t.literal x.negative).value.isFinite = true := by rw [hvalue]; exact h
  rw [toList_numberText h, ← hchars, t.readNumber_chars x.negative hwhole htail hfinite, hvalue]

end Json

end DesignTokens
