import DesignTokens.Document.Stylesheet
import DesignTokens.Proofs.Number.DocumentText

/-!
# Lengths read back

Plain text has no exponent, so zeros are filled in up to the point, and a whole number may get
hundreds of digits. It is read as the same number all the same: a decimal that is written out is
rounded like the one with an exponent, as long as it is not too large for a double.
-/

namespace DesignTokens

/-- Reads a length in pixels: a decimal literal and its unit. -/
def readLength? (text : String) : Option Binary64 :=
  (Stylesheet.dropEnding? "px" text).bind fun number =>
    (DecimalLiteral.read number.toList).map (·.value)

namespace Binary64

-- What has more than a thousand binary digits is beyond all doubles.
theorem infinityCode_le_nearestCode {n : Nat} (h : 1104 ≤ n.log2) :
    infinityCode ≤ nearestCode n 1 := by
  have hne : n ≠ 0 := by
    rintro rfl
    exact absurd h (by decide)
  have hunits : unitsPerOne.log2 = 1074 := by decide +kernel
  have hlog := (log2_mul hne (n := unitsPerOne) (by decide +kernel)).1
  simp only [nearestCode, Nat.div_one]
  unfold infinityCode
  omega

-- The zeros that an exponent stands for can be written out.
theorem decimalCode_writtenOut {c k : Nat} (h : decimalCode c k < infinityCode) :
    decimalCode (c * tenToThe k) 0 = decimalCode c k := by
  by_cases hc : c = 0
  · rw [hc, Nat.zero_mul, decimalCode_zero, decimalCode_zero]
  · have hne : c * tenToThe k ≠ 0 := Nat.mul_ne_zero hc (tenToThe_pos k).ne'
    -- the early answers are for infinity and for zero, and this is neither
    have hcode : decimalCode c k = nearestCode (c * tenToThe k) 1 := by
      unfold decimalCode at h ⊢
      rw [if_neg hc] at h ⊢
      split at h
      · exact absurd h (Nat.lt_irrefl _)
      · rename_i hlarge
        rw [if_neg hlarge, if_neg (by omega), if_pos (by omega), Int.toNat_natCast]
    have hlog : (c * tenToThe k).log2 < 1104 := by
      refine Nat.lt_of_not_le fun hlarge => ?_
      exact absurd (infinityCode_le_nearestCode hlarge) (by rw [← hcode]; exact Nat.not_le.2 h)
    have hone : (tenToThe (0 : Int).toNat) = 1 := rfl
    rw [hcode]
    unfold decimalCode
    rw [if_neg hne, if_neg (by omega), if_neg (by omega), if_pos le_rfl, hone, Nat.mul_one]

end Binary64

namespace Decimal

variable {d : Decimal}

-- A whole number: zeros up to where the point would stand.
theorem exists_whole {k : Nat} (hk : d.exponent = k)
    (hcode : Binary64.codeOf d < Binary64.infinityCode) :
    ∃ t : LiteralText, t.chars = d.digits ++ List.replicate k '0' ∧
      Binary64.decimalCode (Nat.ofDigitChars 10 (t.whole ++ t.fraction) 0)
        (t.exponent - t.fraction.length) = Binary64.codeOf d := by
  have hvalue := d.ofDigitChars_digits
  let t : LiteralText := {
    whole := d.digits ++ List.replicate k '0'
    fraction := []
    mark := []
    exponent := 0
    nonempty := List.append_ne_nil_of_left_ne_nil d.digits_ne_nil _
    digits := by
      intro c hc
      rw [List.append_nil, List.mem_append] at hc
      rcases hc with hc | hc
      · exact d.digits_ascii c hc
      · exact isAsciiDigit_of_mem_zeros hc
    marked := .inl rfl
    means := rfl }
  refine ⟨t, List.append_nil _, ?_⟩
  have hten : 10 ^ k * d.coefficient = d.coefficient * tenToThe k := Nat.mul_comm ..
  have hdigits : Nat.ofDigitChars 10 (t.whole ++ t.fraction) 0 = d.coefficient * tenToThe k := by
    show Nat.ofDigitChars 10 (d.digits ++ List.replicate k '0' ++ []) 0 = _
    rw [List.append_nil, Nat.ofDigitChars_append, hvalue, Nat.ofDigitChars_replicate_zero, hten]
  rw [hdigits]
  rw [Binary64.codeOf, hk] at hcode ⊢
  exact Binary64.decimalCode_writtenOut hcode

theorem exists_plain (hc : d.coefficient ≠ 0)
    (hcode : Binary64.codeOf d < Binary64.infinityCode) :
    ∃ t : LiteralText, t.chars = positionalText false d.digits d.point ∧
      Binary64.decimalCode (Nat.ofDigitChars 10 (t.whole ++ t.fraction) 0)
        (t.exponent - t.fraction.length) = Binary64.codeOf d := by
  have hexponent : d.point = d.digits.length + d.exponent := rfl
  unfold positionalText
  split
  · obtain ⟨t, hchars, ht⟩ := exists_whole (k := d.point.toNat - d.digits.length) (by omega) hcode
    exact ⟨t, hchars.trans (List.append_nil _).symm, ht⟩
  · split
    · obtain ⟨t, hchars, ht⟩ := exists_pointInside hc (by omega) (by omega)
      exact ⟨t, hchars, ht.code⟩
    · obtain ⟨t, hchars, ht⟩ := exists_zerosBefore (d := d) (by omega)
      exact ⟨t, hchars, ht.code⟩

end Decimal

namespace Binary64

theorem exists_plainLiteral {x : Binary64} (h : x.isFinite = true) :
    ∃ t : LiteralText, t.chars = NumberStyle.plain.magnitudeText x ∧
      (t.literal x.negative).value = x := by
  unfold NumberStyle.magnitudeText
  by_cases hzero : x.code = 0
  · let t : LiteralText := {
      whole := ['0']
      fraction := []
      mark := []
      exponent := 0
      nonempty := List.cons_ne_nil _ _
      digits := List.all_eq_true.1 (by decide)
      marked := .inl rfl
      means := rfl }
    refine ⟨t, by rw [if_pos hzero]; rfl, ?_⟩
    rw [← ofCode_code h, hzero]
    rfl
  · rw [if_neg hzero]
    obtain ⟨-, hcode⟩ := codeOf_shortest NumberStyle.plain.tie h hzero
    generalize x.shortest NumberStyle.plain.tie = d at *
    have hcoefficient : d.coefficient ≠ 0 := by
      intro hc
      rw [codeOf, hc, decimalCode_zero] at hcode
      exact hzero hcode.symm
    have hfinite : codeOf d < infinityCode := by
      rw [hcode]
      exact of_decide_eq_true h
    obtain ⟨t, hchars, ht⟩ := d.exists_plain hcoefficient hfinite
    refine ⟨t, hchars, ?_⟩
    rw [DecimalLiteral.value, LiteralText.literal, ofDecimal, decimalValue_eq, ht, hcode]
    exact ofCode_code h

end Binary64

theorem Stylesheet.dropEnding?_append (s ending : String) :
    dropEnding? ending (s ++ ending) = some s := by
  have hsuffix : ending.toList.isSuffixOf (s ++ ending).toList = true := by
    rw [String.toList_append, List.isSuffixOf_iff_suffix]
    exact List.suffix_append _ _
  rw [dropEnding?, if_pos hsuffix, String.toList_append, List.length_append, Nat.add_sub_cancel,
    List.take_left, String.ofList_toList]

/-- **The text of a length is read as its number.** -/
theorem readLength?_lengthText {x : Binary64} (h : x.isFinite = true) :
    readLength? (lengthText x) = some x := by
  obtain ⟨t, hchars, hvalue⟩ := Binary64.exists_plainLiteral h
  rw [readLength?, lengthText, Stylesheet.dropEnding?_append, Option.bind_some,
    NumberStyle.plain.toList_text h, ← hchars, t.read_chars, Option.map_some, hvalue]

end DesignTokens
