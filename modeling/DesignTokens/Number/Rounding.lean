import DesignTokens.Number.Binary64

/-!
# Rounding to the nearest

Quotients of whole numbers are rounded to the nearest whole number, a half going to the even
neighbour. A positive rational is rounded to the nearest double by the same rule: its power is
chosen so that 53 bits are left before the point, and the rounded significand is added to the
power's first code. A carry out of the 53 bits then runs into the next power by itself, and past
the last one into infinity.
-/

namespace DesignTokens

/-- The whole number nearest to `num / den`; a half goes to the even neighbour. -/
def roundHalfEven (num den : Nat) : Nat :=
  let q := num / den
  let r := num % den
  if den < 2 * r ∨ (2 * r = den ∧ q % 2 = 1) then q + 1 else q

def tenToThe (n : Nat) : Nat :=
  Nat.pow 10 n

namespace Binary64

/-- The code of the double nearest to the positive rational `num / den`. -/
def nearestCode (num den : Nat) : Nat :=
  let scaled := num * unitsPerOne
  let power := (scaled / den).log2 - 52
  power * 0x10000000000000 + roundHalfEven scaled (den <<< power)

/-- The code of the double nearest to `coefficient * 10 ^ exponent`. The two early answers keep
the powers of ten small: `2 ^ 10 < 10 ^ 4` and `2 ^ 3 < 10` bound the magnitude on both sides. -/
def decimalCode (coefficient : Nat) (exponent : Int) : Nat :=
  if coefficient = 0 then 0
  else if 330 < (coefficient.log2 * 3 / 10 : Nat) + exponent then infinityCode
  else if ((coefficient.log2 + 1) / 3 + 1 : Nat) + exponent < -330 then 0
  else if 0 ≤ exponent then nearestCode (coefficient * tenToThe exponent.toNat) 1
  else nearestCode coefficient (tenToThe (-exponent).toNat)

/-- The double nearest to a whole number. -/
def ofNat (n : Nat) : Binary64 :=
  ofCode false (nearestCode n 1)

/-- A finite number divided by a positive whole number, to the nearest double. -/
def quotient (x : Binary64) (den : Nat) : Binary64 :=
  ofCode x.negative (nearestCode x.units (unitsPerOne * den))

/-- The double nearest to `coefficient * 10 ^ exponent`, with a sign. -/
def ofDecimal (negative : Bool) (coefficient : Nat) (exponent : Int) : Binary64 :=
  ofCode negative (decimalCode coefficient exponent)

end Binary64

/-! ## Laws of rounding -/

theorem roundHalfEven_of_dvd {num den : Nat} (hpos : 0 < den) (h : den ∣ num) :
    roundHalfEven num den = num / den := by
  have : num % den = 0 := Nat.mod_eq_zero_of_dvd h
  simp [roundHalfEven, this, Nat.ne_of_lt hpos]

/-- The rounded quotient is at most half a unit away. -/
theorem roundHalfEven_bounds (num den : Nat) (hpos : 0 < den) :
    2 * num ≤ (2 * roundHalfEven num den + 1) * den ∧
      (2 * roundHalfEven num den) * den ≤ 2 * num + den := by
  have hdiv := Nat.div_add_mod num den
  have hmod := Nat.mod_lt num hpos
  simp only [roundHalfEven]
  generalize num / den = q at *
  generalize num % den = r at *
  subst hdiv
  split <;> constructor <;> simp only [Nat.add_mul, Nat.mul_add, Nat.mul_assoc, Nat.mul_comm q den]
    <;> omega

/-- Halfway below an even number a quotient is rounded to that number. -/
theorem roundHalfEven_lt_iff (num : Nat) {den k : Nat} (hpos : 0 < den) (hk : k % 2 = 0) :
    roundHalfEven num den < k ↔ 2 * num + den < 2 * k * den := by
  have hdiv := Nat.div_add_mod num den
  have hmod := Nat.mod_lt num hpos
  simp only [roundHalfEven]
  generalize num / den = q at *
  generalize num % den = r at *
  subst hdiv
  rcases Nat.lt_trichotomy (q + 1) k with hlt | rfl | hgt
  · have hle : (q + 2) * den ≤ k * den := Nat.mul_le_mul_right den hlt
    rw [Nat.add_mul] at hle
    rw [Nat.mul_assoc, Nat.mul_comm den q]
    exact iff_of_true (by split <;> omega) (by omega)
  · rw [Nat.mul_assoc, Nat.add_mul, Nat.mul_comm den q]
    split <;> omega
  · have hle : k * den ≤ q * den := Nat.mul_le_mul_right den (Nat.le_of_lt_succ hgt)
    rw [Nat.mul_assoc, Nat.mul_comm den q]
    exact iff_of_false (by split <;> omega) (by omega)

end DesignTokens
