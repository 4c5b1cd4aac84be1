import DesignTokens.Number.Shortest
import Mathlib.Data.Nat.Log
import Mathlib.Tactic.Ring

/-!
# Shortest decimals read back

The decimal that is written for a finite number is rounded to that number again. A decimal that the
search finds has been tested; the exact one behind the search needs no rounding at all, since the
power that the rounding chooses for it is that of the number. The coefficient and the exponent of
both stay within bounds, so a reader may stop early at large exponents.
-/

namespace DesignTokens

/-! ## Rounding of equal quotients -/

theorem roundHalfEven_mul_right (num den : Nat) {k : Nat} (hk : 0 < k) :
    roundHalfEven (num * k) (den * k) = roundHalfEven num den := by
  have hmod : num * k % (den * k) = num % den * k := Nat.mul_mod_mul_right k num den
  have hlt : den * k < 2 * (num % den * k) ↔ den < 2 * (num % den) := by
    rw [← Nat.mul_assoc]
    exact Nat.mul_lt_mul_right hk
  have heq : 2 * (num % den * k) = den * k ↔ 2 * (num % den) = den := by
    rw [← Nat.mul_assoc]
    exact Nat.mul_left_inj hk.ne'
  simp only [roundHalfEven, Nat.mul_div_mul_right num den hk, hmod, hlt, heq]

theorem tenToThe_pos (n : Nat) : 0 < tenToThe n :=
  Nat.pow_pos (by decide)

theorem tenToThe_le {m n : Nat} (h : m ≤ n) : tenToThe m ≤ tenToThe n :=
  Nat.pow_le_pow_right (by decide) h

namespace Binary64

/-- Rounding looks at the value of a quotient only. -/
theorem nearestCode_mul_right (num den : Nat) {k : Nat} (hk : 0 < k) :
    nearestCode (num * k) (den * k) = nearestCode num den := by
  have hscaled : num * k * unitsPerOne = num * unitsPerOne * k := Nat.mul_right_comm ..
  have hshift (p : Nat) : (den * k) <<< p = den <<< p * k := by
    rw [Nat.shiftLeft_eq, Nat.shiftLeft_eq, Nat.mul_right_comm]
  simp only [nearestCode, hscaled, Nat.mul_div_mul_right _ _ hk, hshift,
    roundHalfEven_mul_right _ _ hk]

/-! ## Units of a number -/

theorem units_eq (x : Binary64) : x.units = x.significand * 2 ^ x.power :=
  Nat.shiftLeft_eq ..

theorem significand_lt (x : Binary64) : x.significand < 2 ^ 53 := by
  unfold significand
  split <;> omega

theorem power_le {x : Binary64} (h : x.isFinite = true) : x.power ≤ 2045 := by
  simp only [isFinite, decide_eq_true_eq] at h
  unfold infinityCode at h
  unfold power
  omega

theorem units_ne_zero {x : Binary64} (h : x.code ≠ 0) : x.units ≠ 0 := by
  have hsignificand : x.significand ≠ 0 := by
    unfold significand
    split <;> omega
  rw [units_eq]
  exact Nat.mul_ne_zero hsignificand (Nat.two_pow_pos _).ne'

-- The power that rounding chooses for the value of a number is the power of the number.
theorem log2_units {x : Binary64} (h : x.code ≠ 0) : x.units.log2 - 52 = x.power := by
  by_cases hsmall : x.code < 0x10000000000000
  · have hpower : x.power = 0 := by unfold power; omega
    have hunits : x.units = x.code := by
      rw [units_eq, hpower, Nat.pow_zero, Nat.mul_one, significand, if_pos hsmall]
    have hlog : x.units.log2 < 52 := by
      rw [hunits]
      exact (Nat.log2_lt h).2 hsmall
    omega
  · have hlow : 2 ^ 52 ≤ x.significand := by
      unfold significand
      rw [if_neg hsmall]
      exact Nat.le_add_right ..
    have hlog : x.units.log2 = 52 + x.power := by
      apply (Nat.log2_eq_iff (units_ne_zero h)).2
      rw [units_eq, Nat.pow_add, show 52 + x.power + 1 = 53 + x.power by omega, Nat.pow_add 2 53]
      exact ⟨Nat.mul_le_mul_right _ hlow,
        Nat.mul_lt_mul_of_pos_right x.significand_lt (Nat.two_pow_pos _)⟩
    omega

-- A code is made of its power and its significand again.
theorem code_eq (x : Binary64) : x.power * 0x10000000000000 + x.significand = x.code := by
  unfold power significand
  split <;> omega

/-- A quotient that is exactly the value of a number is rounded to that number. -/
theorem nearestCode_of_exact {x : Binary64} (h : x.code ≠ 0) {num den : Nat} (hden : 0 < den)
    (hexact : num * unitsPerOne = x.units * den) : nearestCode num den = x.code := by
  have hround : roundHalfEven (x.units * den) (den <<< x.power) = x.significand := by
    have hunits : x.units * den = x.significand * (den <<< x.power) := by
      rw [units_eq, Nat.shiftLeft_eq]
      ring
    have hpos : 0 < den <<< x.power := by
      rw [Nat.shiftLeft_eq]
      exact Nat.mul_pos hden (Nat.two_pow_pos _)
    rw [hunits, roundHalfEven_of_dvd hpos (Nat.dvd_mul_left ..), Nat.mul_div_cancel _ hpos]
  simp only [nearestCode, hexact, Nat.mul_div_cancel _ hden, log2_units h, hround]
  exact x.code_eq

/-! ## Bounds of the search -/

section Log2

variable {m n : Nat}

theorem log2_le_of_le (hm : m ≠ 0) (h : m ≤ n) : m.log2 ≤ n.log2 :=
  (Nat.le_log2 (by omega)).2 ((Nat.log2_self_le hm).trans h)

theorem log2_mul (hm : m ≠ 0) (hn : n ≠ 0) :
    m.log2 + n.log2 ≤ (m * n).log2 ∧ (m * n).log2 ≤ m.log2 + n.log2 + 1 := by
  have hmn : m * n ≠ 0 := Nat.mul_ne_zero hm hn
  constructor
  · rw [Nat.le_log2 hmn, Nat.pow_add]
    exact Nat.mul_le_mul (Nat.log2_self_le hm) (Nat.log2_self_le hn)
  · have hlt : m * n < 2 ^ (m.log2 + 1) * 2 ^ (n.log2 + 1) :=
      Nat.mul_lt_mul'' Nat.lt_log2_self Nat.lt_log2_self
    rw [← Nat.pow_add, ← Nat.log2_lt hmn] at hlt
    omega

end Log2

/-- A decimal whose parts are not too large. -/
structure Bounded (d : Decimal) : Prop where
  coefficient : d.coefficient.log2 < 4600
  exponent : -1074 ≤ d.exponent ∧ d.exponent ≤ 400

theorem log2_units_le {x : Binary64} (h : x.isFinite = true) (hne : x.code ≠ 0) :
    x.units.log2 ≤ 2097 := by
  have hlog := log2_units hne
  have hpower := power_le h
  omega

theorem topPower_bounds {x : Binary64} (h : x.isFinite = true) (hne : x.code ≠ 0) :
    -323 ≤ x.topPower ∧ x.topPower ≤ 400 := by
  have hlog := log2_units_le h hne
  unfold topPower
  omega

-- On a power of ten that is not too fine, the multiples around a number are not too large.
theorem log2_le_of_le_magnitudeIn {x : Binary64} (h : x.isFinite = true) (hne : x.code ≠ 0)
    {k : Int} (hk : -400 ≤ k) {c : Nat}
    (hc : c ≤ (x.magnitudeIn k).1 / (x.magnitudeIn k).2 + 1) : c.log2 < 4600 := by
  have hunits := units_ne_zero hne
  have hnum : (x.magnitudeIn k).1 ≤ x.units * tenToThe 400 := by
    unfold magnitudeIn
    split
    · exact Nat.le_mul_of_pos_right _ (tenToThe_pos 400)
    · exact Nat.mul_le_mul_left _ (tenToThe_le (by omega))
  have hdiv := Nat.div_le_self (x.magnitudeIn k).1 (x.magnitudeIn k).2
  have hsum : c ≤ x.units * (tenToThe 400 + 1) := by
    rw [Nat.mul_add, Nat.mul_one]
    omega
  have hlog : (tenToThe 400 + 1).log2 = 1328 := by decide +kernel
  have hne' : tenToThe 400 + 1 ≠ 0 := Nat.add_one_ne_zero _
  have hmul := (log2_mul hunits hne').2
  have hle := log2_units_le h hne
  by_cases hzero : c = 0
  · rw [hzero]
    decide
  · have hmono := log2_le_of_le hzero hsum
    omega

theorem of_readsBackIn {tie : TieBreak} {x : Binary64} {k : Int} {d : Decimal}
    (h : readsBackIn tie x k = some d) :
    d.exponent = k ∧ d.coefficient ≤ (x.magnitudeIn k).1 / (x.magnitudeIn k).2 + 1 := by
  simp only [readsBackIn] at h
  split at h
  · cases h
  · cases h
    exact ⟨rfl, Nat.le_succ _⟩
  · cases h
    exact ⟨rfl, Nat.le_refl _⟩
  · have hboth : d = ⟨(x.magnitudeIn k).1 / (x.magnitudeIn k).2, k⟩ ∨
        d = ⟨(x.magnitudeIn k).1 / (x.magnitudeIn k).2 + 1, k⟩ := by
      split at h
      · exact .inl (Option.some.inj h).symm
      · split at h
        · exact .inr (Option.some.inj h).symm
        · cases tie
          · exact .inr (Option.some.inj h).symm
          · simp only at h
            split at h
            · exact .inl (Option.some.inj h).symm
            · exact .inr (Option.some.inj h).symm
    rcases hboth with rfl | rfl
    · exact ⟨rfl, Nat.le_succ _⟩
    · exact ⟨rfl, Nat.le_refl _⟩

theorem bounded_of_coarsestFrom {tie : TieBreak} {x : Binary64} (hx : x.isFinite = true)
    (hne : x.code ≠ 0) {tries : Nat} {k : Int} {d : Decimal} (hlow : -400 + tries ≤ k) (hhigh : k ≤ 400)
    (h : coarsestFrom tie x tries k = some d) : Bounded d := by
  induction tries generalizing k with
  | zero => cases h
  | succ tries ih =>
    simp only [coarsestFrom] at h
    split at h
    · rename_i hd
      cases h
      obtain ⟨hexponent, hcoefficient⟩ := of_readsBackIn hd
      have hlog := log2_le_of_le_magnitudeIn hx hne (by omega) hcoefficient
      exact ⟨hlog, by omega, by omega⟩
    · exact ih (by omega) (by omega) h

/-! ## The shortest decimal -/

-- The power of five of the exact decimal, which stands behind the search.
theorem five_pow_mul_unitsPerOne : Nat.pow 5 1074 * unitsPerOne = tenToThe 1074 := by
  unfold unitsPerOne
  generalize 1074 = n
  rw [Nat.shiftLeft_eq, Nat.one_mul]
  exact (Nat.mul_pow 5 2 n).symm

theorem codeOf_exact {x : Binary64} (hx : x.isFinite = true) (hne : x.code ≠ 0) {five : Nat}
    (hlog : five.log2 = 2493) (hten : five * unitsPerOne = tenToThe 1074) :
    Bounded ⟨x.units * five, -1074⟩ ∧ codeOf ⟨x.units * five, -1074⟩ = x.code := by
  have hunits := units_ne_zero hne
  have hfive : five ≠ 0 := by
    rintro rfl
    cases hlog
  have hscale : x.units * five * unitsPerOne = x.units * tenToThe 1074 := by
    rw [Nat.mul_assoc, hten]
  have hne' : x.units * five ≠ 0 := Nat.mul_ne_zero hunits hfive
  have hmul := log2_mul hunits hfive
  have hle := log2_units_le hx hne
  generalize x.units * five = c at *
  have hcode : codeOf ⟨c, -1074⟩ = nearestCode c (tenToThe 1074) := by
    simp only [codeOf, decimalCode]
    rw [if_neg hne', if_neg (by omega), if_neg (by omega), if_neg (by decide)]
    rfl
  rw [hcode]
  refine ⟨⟨?_, le_rfl, ?_⟩, nearestCode_of_exact hne (tenToThe_pos 1074) hscale⟩
  · show c.log2 < 4600
    omega
  · show (-1074 : Int) ≤ 400
    decide

/-- **The shortest decimal of a finite number is bounded and rounds to the number again.** -/
theorem codeOf_shortest (tie : TieBreak) {x : Binary64} (hx : x.isFinite = true)
    (hne : x.code ≠ 0) : Bounded (x.shortest tie) ∧ codeOf (x.shortest tie) = x.code := by
  have hlog : (Nat.pow 5 1074).log2 = 2493 := by decide +kernel
  unfold shortest
  cases hsearch : coarsestFrom tie x 24 x.topPower with
  | none => exact codeOf_exact hx hne hlog five_pow_mul_unitsPerOne
  | some d =>
    obtain ⟨hlow, hhigh⟩ := topPower_bounds hx hne
    exact ⟨bounded_of_coarsestFrom hx hne (by omega) hhigh hsearch, codeOf_of_coarsestFrom hsearch⟩

end Binary64

end DesignTokens
