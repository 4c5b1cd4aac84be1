import DesignTokens.Proofs.Extract.DigitRuns
import DesignTokens.Storage.Source
import Mathlib.Tactic.Linarith

/-!
# Sizes and their units

A size is shown in the largest unit that is not larger than it. A size below `2 ^ 53` is a double,
and so are its quotients by powers of two: the number in the text is the exact quotient with two
places, half a hundredth of the unit away at most. The unit is chosen before the number is rounded,
so just below 1024 of a unit that is not the largest one the number becomes 1024 of it and not one
of the next.
-/

namespace DesignTokens

/-! ## Numbers in texts -/

theorem isNumberText_of_digits {whole : List Char} (fraction : Option (List Char))
    (hne : whole ≠ []) (hwhole : ∀ c ∈ whole, Text.isAsciiDigit c = true)
    (hfraction : ∀ c ∈ fraction.getD [], Text.isAsciiDigit c = true) :
    IsNumberText (whole ++ (fraction.map ('.' :: ·)).getD []) := by
  let u : UnsignedLiteral := {
    whole := whole
    fraction := fraction
    exponent := none
    nonempty := List.append_ne_nil_of_left_ne_nil hne _
    ascii := List.forall_mem_append.2 ⟨hwhole, hfraction⟩ }
  have hchars : u.chars = u.whole ++ u.pointed := UnsignedLiteral.chars_of_exponent_none rfl
  exact hchars ▸ UnsignedLiteral.isNumberText rfl

section Hundredths

variable (n : Nat)

theorem toList_hundredthsText : (hundredthsText n).toList =
    Nat.toDigits 10 (n / 100) ++ '.' :: [Nat.digitChar (n / 10 % 10), Nat.digitChar (n % 10)] := by
  have hwhole : (toString (n / 100)).toList = Nat.toDigits 10 (n / 100) := Nat.toList_repr
  have hpoint : ".".toList = ['.'] := rfl
  rw [hundredthsText, String.toList_append, String.toList_append, hwhole, hpoint,
    String.toList_ofList, List.append_assoc, List.singleton_append]

theorem isAsciiDigit_digitChar {d : Nat} (hd : d < 10) :
    Text.isAsciiDigit (Nat.digitChar d) = true := by
  refine isAsciiDigit_of_mem_toDigits (n := d) ?_
  rw [Nat.toDigits_of_lt_base hd]
  exact List.mem_singleton_self _

theorem isAsciiDigit_of_mem_places :
    ∀ c ∈ [Nat.digitChar (n / 10 % 10), Nat.digitChar (n % 10)], Text.isAsciiDigit c = true :=
  List.forall_mem_cons.2 ⟨isAsciiDigit_digitChar (Nat.mod_lt _ (by decide)),
    List.forall_mem_singleton.2 (isAsciiDigit_digitChar (Nat.mod_lt _ (by decide)))⟩

theorem isNumberText_hundredthsText : IsNumberText (hundredthsText n).toList := by
  rw [toList_hundredthsText]
  exact isNumberText_of_digits (some [Nat.digitChar (n / 10 % 10), Nat.digitChar (n % 10)])
    Nat.toDigits_ne_nil (fun _ => isAsciiDigit_of_mem_toDigits) (isAsciiDigit_of_mem_places n)

/-- The value of a number of hundredths is that number over a hundred. -/
theorem shownValue_hundredthsText : shownValue (hundredthsText n).toList = n / 100 := by
  have hwhole : '.' ∉ Nat.toDigits 10 (n / 100) :=
    point_not_mem fun _ => isAsciiDigit_of_mem_toDigits
  have hplaces := point_not_mem (isAsciiDigit_of_mem_places n)
  have hdigits : Nat.ofDigitChars 10 (Nat.toDigits 10 (n / 100)
      ++ [Nat.digitChar (n / 10 % 10), Nat.digitChar (n % 10)]) 0 = n := by
    rw [Nat.ofDigitChars_append, Nat.ofDigitChars_toDigits (by decide) (by decide),
      Nat.ofDigitChars_cons_digitChar_of_lt_ten (Nat.mod_lt _ (by decide)),
      Nat.ofDigitChars_cons_digitChar_of_lt_ten (Nat.mod_lt _ (by decide))]
    show 10 * (10 * (n / 100) + n / 10 % 10) + n % 10 = n
    omega
  rw [toList_hundredthsText, shownValue_pointed hwhole hplaces, hdigits]
  norm_num

theorem isNumberText_toDigits : IsNumberText (Nat.toDigits 10 n) := by
  rw [← List.append_nil (Nat.toDigits 10 n)]
  exact isNumberText_of_digits none Nat.toDigits_ne_nil (fun _ => isAsciiDigit_of_mem_toDigits)
    fun _ hc => absurd hc List.not_mem_nil

theorem shownValue_toDigits : shownValue (Nat.toDigits 10 n) = n := by
  rw [shownValue_whole (point_not_mem fun _ => isAsciiDigit_of_mem_toDigits),
    Nat.ofDigitChars_toDigits (by decide) (by decide)]

theorem hundredths_lt_iff : (n / 100 : ℚ) < 1024 ↔ n < 102400 := by
  rw [div_lt_iff₀ (by norm_num)]
  norm_cast

end Hundredths

/-! ## Units -/

namespace SizeUnit

/-- How many bytes a unit has. -/
def bytes : SizeUnit → Nat
  | byte => 1
  | kilobyte => 1024
  | megabyte => 1024 ^ 2
  | gigabyte => 1024 ^ 3

theorem bytes_pos (unit : SizeUnit) : 0 < unit.bytes := by
  cases unit <;> decide

/-- A double is a size in a unit, and nothing is lost: its last bit is worth `2 ^ power`. -/
structure Scaled (size : Nat) (x : Binary64) (unit : SizeUnit) (power : Nat) : Prop where
  units : x.units = size * 2 ^ power
  bytes : unit.bytes * 2 ^ power = Binary64.unitsPerOne

namespace Scaled

variable {size power : Nat} {x : Binary64} {unit next : SizeUnit}

/-- Going over to the next unit is exact. -/
theorem quotient (h : Scaled size x unit (power + 10)) (hsize : size < 2 ^ 53)
    (hpower : power ≤ 2045) (hnext : next.bytes = 1024 * unit.bytes) :
    Scaled size (x.quotient 1024) next power where
  units := Binary64.units_quotient (k := 10) hsize hpower h.units
  bytes := by
    rw [← h.bytes, hnext, Nat.pow_add]
    ring

theorem le_units_iff (h : Scaled size x unit power) (n : Nat) :
    n * Binary64.unitsPerOne ≤ x.units ↔ n * unit.bytes ≤ size := by
  rw [h.units, ← h.bytes, ← Nat.mul_assoc, Nat.mul_le_mul_right_iff (Nat.two_pow_pos power)]

theorem magnitude_mul (h : Scaled size x unit power) : x.magnitude * unit.bytes = size := by
  have hone : (Binary64.unitsPerOne : ℚ) ≠ 0 := Nat.cast_ne_zero.2 Binary64.unitsPerOne_pos.ne'
  rw [Binary64.magnitude, div_mul_eq_mul_div, div_eq_iff hone, ← Nat.cast_mul, ← Nat.cast_mul,
    h.units, ← h.bytes]
  congr 1
  ring

/-- The number with two places is rounded from the exact quotient. -/
theorem roundHalfEven_eq (h : Scaled size x unit power) :
    roundHalfEven (100 * x.units) Binary64.unitsPerOne = roundHalfEven (100 * size) unit.bytes := by
  rw [h.units, ← h.bytes, ← Nat.mul_assoc, roundHalfEven_mul_right _ _ (Nat.two_pow_pos power)]

end Scaled

/-- Where going over to larger units ends: the double is exact, the unit has been reached, and there
is no larger one or too little for it. -/
structure Reached (size : Nat) (x : Binary64) (first last unit : SizeUnit) : Prop where
  scaled : ∃ power, Scaled size x unit power
  low : unit = first ∨ unit.bytes ≤ size
  high : unit = last ∨ size < 1024 * unit.bytes

theorem reached_climb {size : Nat} (hsize : size < 2 ^ 53) (larger : List SizeUnit) {x : Binary64}
    {unit : SizeUnit} {power : Nat} (hpower : power + 10 * larger.length ≤ 2045)
    (hlarger : (unit :: larger).IsChain fun u v => v.bytes = 1024 * u.bytes)
    (h : Scaled size x unit (power + 10 * larger.length)) :
    Reached size (climb x unit larger).1 unit ((unit :: larger).getLast (List.cons_ne_nil _ _))
      (climb x unit larger).2 := by
  induction larger generalizing x unit with
  | nil => exact ⟨⟨_, h⟩, .inl rfl, .inl rfl⟩
  | cons next larger ih =>
    obtain ⟨hnext, hmore⟩ := List.isChain_cons_cons.1 hlarger
    rw [List.length_cons, Nat.mul_succ, ← Nat.add_assoc] at h hpower
    rw [climb]
    split
    · rename_i hmany
      have hreached := ih (by omega) hmore (h.quotient hsize (by omega) hnext)
      refine ⟨hreached.scaled, .inr ?_, hreached.high⟩
      rcases hreached.low with hunit | hle
      · rw [hunit, hnext]
        exact (h.le_units_iff 1024).1 hmany
      · exact hle
    · rename_i hfew
      exact ⟨⟨_, h⟩, .inl rfl, .inr (Nat.lt_of_not_le (mt (h.le_units_iff 1024).2 hfew))⟩

/-- A number and a unit are told from their text. -/
theorem eq_of_text_eq {s t : List Char} {u v : SizeUnit}
    (h : String.ofList s ++ " " ++ u.label = String.ofList t ++ " " ++ v.label) :
    s = t ∧ u = v := by
  have hchars : u.label.toList.reverse ++ ' ' :: s.reverse =
      v.label.toList.reverse ++ ' ' :: t.reverse := by
    have hreverse := congrArg (fun text => text.toList.reverse) h
    simpa only [String.toList_append, String.toList_ofList, List.reverse_append,
      String.reduceToList, List.reverse_singleton, List.singleton_append] using hreverse
  -- two labels differ in their last letter or in what stands in front of it
  cases u <;> cases v <;> simp_all [label]

end SizeUnit

theorem reached_scaledSize {size : Nat} (hsize : size < 2 ^ 53) :
    SizeUnit.Reached size (scaledSize size).1 .byte .gigabyte (scaledSize size).2 := by
  have hbytes : SizeUnit.Scaled size (.ofNat size) .byte 1074 :=
    ⟨Binary64.units_ofNat hsize, by rw [Binary64.unitsPerOne_eq, SizeUnit.bytes, Nat.one_mul]⟩
  exact @SizeUnit.reached_climb size hsize [.kilobyte, .megabyte, .gigabyte] _ _ 1044 (by decide)
    (by decide) hbytes

/-! ## Texts -/

/-- What the text of a size says: a number and its unit. -/
structure ShowsSize (size : Nat) (x : Binary64) (unit : SizeUnit) (number : List Char) : Prop where
  /-- The double is the size divided by the unit, without any rounding. -/
  divided : x.magnitude * unit.bytes = size
  unit_le : unit = .byte ∨ unit.bytes ≤ size
  lt_next : unit = .gigabyte ∨ size < 1024 * unit.bytes
  isNumber : IsNumberText number
  whole : unit = .byte → shownValue number = size
  near : |shownValue number * unit.bytes - size| ≤ unit.bytes / 200
  one_le : size ≠ 0 → 1 ≤ shownValue number
  /-- The number is below 1024 if the size is below it by more than half a hundredth. -/
  lt_iff : shownValue number < 1024 ↔ (size + unit.bytes / 200 : ℚ) < 1024 * unit.bytes

section Shows

variable {size power : Nat} {x : Binary64} {unit : SizeUnit}

theorem shows_bytes (h : SizeUnit.Scaled size x .byte power) (hlt : size < 1024) :
    ShowsSize size x .byte (Nat.toDigits 10 size) := by
  have hbyte : (SizeUnit.byte.bytes : ℚ) = 1 := Nat.cast_one
  have hle : (size : ℚ) ≤ 1023 := by exact_mod_cast Nat.le_of_lt_succ hlt
  refine {
    divided := h.magnitude_mul
    unit_le := .inl rfl
    lt_next := .inr hlt
    isNumber := isNumberText_toDigits size
    whole := fun _ => shownValue_toDigits size
    near := ?_
    one_le := fun hne => ?_
    lt_iff := ?_ }
  · rw [shownValue_toDigits, hbyte, mul_one, sub_self, abs_zero]
    norm_num
  · rw [shownValue_toDigits]
    exact_mod_cast Nat.one_le_iff_ne_zero.2 hne
  · rw [shownValue_toDigits, hbyte]
    exact iff_of_true (by linarith) (by linarith)

theorem shows_hundredths (h : SizeUnit.Scaled size x unit power) (hunit : unit ≠ .byte)
    (hle : unit.bytes ≤ size) (hlt : unit = .gigabyte ∨ size < 1024 * unit.bytes) :
    ShowsSize size x unit (hundredthsText (roundHalfEven (100 * size) unit.bytes)).toList := by
  have hpos := unit.bytes_pos
  obtain ⟨hlow, hhigh⟩ := roundHalfEven_bounds (100 * size) unit.bytes hpos
  have hone := roundHalfEven_lt_iff (100 * size) hpos (show 100 % 2 = 0 by decide)
  have hnext := roundHalfEven_lt_iff (100 * size) hpos (show 102400 % 2 = 0 by decide)
  generalize roundHalfEven (100 * size) unit.bytes = n at *
  refine {
    divided := h.magnitude_mul
    unit_le := .inr hle
    lt_next := hlt
    isNumber := isNumberText_hundredthsText n
    whole := fun hbyte => absurd hbyte hunit
    near := ?_
    one_le := fun _ => ?_
    lt_iff := ?_ }
  · have hlow' : 2 * (100 * (size : ℚ)) ≤ (2 * n + 1) * unit.bytes := by exact_mod_cast hlow
    have hhigh' : 2 * (n : ℚ) * unit.bytes ≤ 2 * (100 * size) + unit.bytes := by
      exact_mod_cast hhigh
    rw [shownValue_hundredthsText, abs_le]
    constructor <;> linarith
  · have hn : 100 ≤ n := Nat.le_of_not_lt (mt hone.1 (by omega))
    rw [shownValue_hundredthsText, le_div_iff₀ (by norm_num), one_mul]
    exact_mod_cast hn
  · have hcast : 2 * (100 * size) + unit.bytes < 2 * 102400 * unit.bytes ↔
        (size + unit.bytes / 200 : ℚ) < 1024 * unit.bytes := by
      rw [← @Nat.cast_lt ℚ]
      push_cast
      constructor <;> intro h <;> linarith
    rw [shownValue_hundredthsText, hundredths_lt_iff, hnext, hcast]

end Shows

/-- **A size is shown to half a hundredth of the largest unit that it fills.** The double behind the
text is the exact quotient. The number is below 1024, unless the unit is the largest one or the
quotient is so little below 1024 that it is rounded up. -/
theorem sizeText_shows {size : Nat} (hsize : size < 2 ^ 53) :
    ∃ x unit number, scaledSize size = (x, unit) ∧
      sizeText size = String.ofList number ++ " " ++ unit.label ∧
      ShowsSize size x unit number := by
  obtain ⟨⟨power, hscaled⟩, hlow, hhigh⟩ := reached_scaledSize hsize
  rcases hpair : scaledSize size with ⟨x, unit⟩
  rw [hpair] at hscaled hlow hhigh
  dsimp only at hscaled hlow hhigh
  by_cases hunit : unit = .byte
  · subst hunit
    have htext : sizeText size = toString size ++ " " ++ SizeUnit.byte.label := by
      rw [sizeText, hpair]
      rfl
    have hlt : size < 1024 := hhigh.resolve_left (by decide)
    refine ⟨x, .byte, Nat.toDigits 10 size, rfl, ?_, shows_bytes hscaled hlt⟩
    rw [htext, ← Nat.repr_eq_ofList_toDigits]
    rfl
  · have htext : sizeText size =
        hundredthsText (roundHalfEven (100 * size) unit.bytes) ++ " " ++ unit.label := by
      simp only [sizeText, hpair, if_neg hunit, hscaled.roundHalfEven_eq]
    refine ⟨x, unit, _, rfl, ?_, shows_hundredths hscaled hunit (hlow.resolve_left hunit) hhigh⟩
    rw [htext, String.ofList_toList]

theorem sizeText_shows_just_short : 1048570 < 2 ^ 53 ∧ sizeText 1048570 = "1023.99 KB" ∧
    ∃ x unit number, scaledSize 1048570 = (x, unit) ∧
      sizeText 1048570 = String.ofList number ++ " " ++ unit.label ∧
      ShowsSize 1048570 x unit number :=
  ⟨by decide, by decide +kernel, sizeText_shows (by decide)⟩

/-- One byte short of a megabyte the number is rounded to 1024, and the unit is kept. -/
theorem sizeText_rounds_to_next : 1048575 < 2 ^ 53 ∧ ¬ ∃ (unit : SizeUnit) (number : List Char),
    sizeText 1048575 = String.ofList number ++ " " ++ unit.label ∧
      (unit = .gigabyte ∨ shownValue number < 1024) := by
  refine ⟨by decide, ?_⟩
  rintro ⟨unit, number, htext, hnumber⟩
  have hshown : sizeText 1048575 =
      String.ofList (hundredthsText 102400).toList ++ " " ++ SizeUnit.kilobyte.label := by
    decide +kernel
  obtain ⟨rfl, rfl⟩ := SizeUnit.eq_of_text_eq (hshown.symm.trans htext)
  rcases hnumber with hunit | hlt
  · cases hunit
  · rw [shownValue_hundredthsText, hundredths_lt_iff] at hlt
    omega

end DesignTokens
