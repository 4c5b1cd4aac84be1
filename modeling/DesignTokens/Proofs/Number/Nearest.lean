import DesignTokens.Proofs.Number.ReadBack
import Mathlib.Algebra.Order.Field.Basic
import Mathlib.Algebra.Order.Field.Rat
import Mathlib.Algebra.Order.Ring.Cast

/-!
# Rounding is to the nearest

The double that a decimal is rounded to is the nearest finite one, and of two that are equally near
the one whose last bit is zero. Codes are in the order of their magnitudes, and a value lies between
two neighbouring codes, of which the rounding takes the nearer one. Only from a threshold on, half a
step above the greatest double, is there none to be taken. The early answers for exponents that are
out of range are those that the rounding would give. A value that has 53 bits is not changed by
rounding, so whole numbers below `2 ^ 53` and their quotients by powers of two are exact.
-/

namespace DesignTokens

/-! ## Rounding to a sequence -/

/-- The place of an increasing sequence that a value is rounded to: of the two neighbours that the
value lies between, the nearer one, and of two that are equally near the one at an even place. -/
def RoundsTo (f : Nat → Nat) (value place : Nat) : Prop :=
  ∃ low step rest, value = f low + rest ∧ f (low + 1) = f low + step ∧ rest < step ∧
    place = if step < 2 * rest ∨ 2 * rest = step ∧ low % 2 = 1 then low + 1 else low

namespace RoundsTo

variable {f : Nat → Nat} (hf : StrictMono f) {value place : Nat} (h : RoundsTo f value place)

include hf h

/-- No place is nearer. -/
theorem distance_le (other : Nat) :
    |(f place : Int) - value| ≤ |(f other : Int) - value| := by
  obtain ⟨low, step, rest, hvalue, hnext, hrest, rfl⟩ := h
  simp only [abs_eq_max_neg]
  rcases Nat.lt_or_ge low other with hlt | hge
  · have hmono : f (low + 1) ≤ f other := hf.monotone hlt
    split <;> omega
  · have hmono : f other ≤ f low := hf.monotone hge
    split <;> omega

/-- Another place that is as near is an odd one. -/
theorem even_of_distance_eq {other : Nat} (hne : other ≠ place)
    (hdistance : |(f other : Int) - value| = |(f place : Int) - value|) : place % 2 = 0 := by
  obtain ⟨low, step, rest, hvalue, hnext, hrest, rfl⟩ := h
  have houtside (h : other ≠ low ∧ other ≠ low + 1) :
      f other < f low ∨ f (low + 1) < f other := by
    rcases Nat.lt_or_ge low other with hlt | hge
    · exact .inr (hf (by omega))
    · exact .inl (hf (by omega))
  by_contra hodd
  simp only [abs_eq_max_neg] at hdistance
  by_cases hother : other ≠ low ∧ other ≠ low + 1
  · have := houtside hother
    split at hdistance <;> omega
  · obtain rfl | rfl : other = low ∨ other = low + 1 := by omega
    all_goals split at hdistance <;> split at hne <;> split at hodd <;> omega

/-- The values that are rounded to a place or to one before it: those up to halfway to the next
place, where the last bit decides. -/
theorem le_iff (other : Nat) : place ≤ other ↔
    2 * value < f other + f (other + 1) ∨
      2 * value = f other + f (other + 1) ∧ other % 2 = 0 := by
  obtain ⟨low, step, rest, hvalue, hnext, hrest, rfl⟩ := h
  have habove : f other < f (other + 1) := hf (Nat.lt_succ_self other)
  rcases Nat.lt_trichotomy low other with hlow | rfl | hlow
  · have hbelow : f (low + 1) ≤ f other := hf.monotone hlow
    exact iff_of_true (by split <;> omega) (.inl (by omega))
  · split <;> omega
  · have hbelow : f (other + 1) ≤ f low := hf.monotone hlow
    exact iff_of_false (by split <;> omega) (by omega)

end RoundsTo

namespace Binary64

/-! ## Magnitudes of codes -/

/-- The magnitude of a code, in units. -/
def unitsAt (code : Nat) : Nat :=
  (if code < 2 ^ 52 then code else 2 ^ 52 + code % 2 ^ 52) * 2 ^ (code / 2 ^ 52 - 1)

theorem units_eq_unitsAt (x : Binary64) : x.units = unitsAt x.code :=
  x.units_eq

-- The significand may be that of the next power, which is a carry.
theorem unitsAt_parts {power significand : Nat} (hlt : significand ≤ 2 ^ 53)
    (hnormal : power = 0 ∨ 2 ^ 52 ≤ significand) :
    unitsAt (power * 2 ^ 52 + significand) = significand * 2 ^ power := by
  unfold unitsAt
  by_cases hsmall : significand < 2 ^ 52
  · have hpower : power = 0 := hnormal.resolve_right (by omega)
    have hzero : significand / 2 ^ 52 - 1 = 0 := by omega
    rw [hpower, Nat.zero_mul, Nat.zero_add, if_pos hsmall, hzero]
  · rw [if_neg (by omega)]
    by_cases hcarry : significand = 2 ^ 53
    · have hdiv : (power * 2 ^ 52 + significand) / 2 ^ 52 - 1 = power + 1 := by omega
      have hmod : (power * 2 ^ 52 + significand) % 2 ^ 52 = 0 := by omega
      rw [hdiv, hmod, hcarry, Nat.pow_succ']
      ring
    · have hdiv : (power * 2 ^ 52 + significand) / 2 ^ 52 - 1 = power := by omega
      have hmod : 2 ^ 52 + (power * 2 ^ 52 + significand) % 2 ^ 52 = significand := by omega
      rw [hdiv, hmod]

theorem exists_parts (code : Nat) : ∃ power significand, code = power * 2 ^ 52 + significand ∧
    significand < 2 ^ 53 ∧ (power = 0 ∨ 2 ^ 52 ≤ significand) :=
  ⟨code / 2 ^ 52 - 1, code - (code / 2 ^ 52 - 1) * 2 ^ 52, by omega, by omega, by omega⟩

theorem unitsAt_strictMono : StrictMono unitsAt := by
  refine strictMono_nat_of_lt_succ fun code => ?_
  obtain ⟨power, significand, rfl, hlt, hnormal⟩ := exists_parts code
  rw [Nat.add_assoc, unitsAt_parts hlt.le hnormal,
    unitsAt_parts hlt (hnormal.imp_right fun h => by omega)]
  exact Nat.mul_lt_mul_of_pos_right (Nat.lt_succ_self _) (Nat.two_pow_pos _)

theorem unitsAt_mul_strictMono {den : Nat} (hden : 0 < den) :
    StrictMono fun code => unitsAt code * den :=
  fun _ _ h => Nat.mul_lt_mul_of_pos_right (unitsAt_strictMono h) hden

/-! ## The nearest code -/

/-- A quotient is rounded among the magnitudes of all codes. -/
theorem roundsTo_nearestCode (num : Nat) {den : Nat} (hden : 0 < den) :
    RoundsTo (fun code => unitsAt code * den) (num * unitsPerOne) (nearestCode num den) := by
  let scaled := num * unitsPerOne
  let power := (scaled / den).log2 - 52
  let quotient := scaled / (den <<< power)
  have hshift : den <<< power = 2 ^ power * den := by rw [Nat.shiftLeft_eq, Nat.mul_comm]
  have hpos : 0 < den <<< power := hshift ▸ Nat.mul_pos (Nat.two_pow_pos _) hden
  have hquotient : quotient = scaled / den / 2 ^ power := by
    rw [Nat.div_div_eq_div_mul, Nat.mul_comm, ← hshift]
  have hlt : quotient < 2 ^ 53 := by
    rw [hquotient, Nat.div_lt_iff_lt_mul (Nat.two_pow_pos _), ← Nat.pow_add]
    exact Nat.lt_log2_self.trans_le (Nat.pow_le_pow_right (by decide) (by omega))
  have hnormal : power = 0 ∨ 2 ^ 52 ≤ quotient := by
    by_cases hlarge : (scaled / den).log2 ≤ 52
    · exact .inl (by omega)
    · right
      have hne : scaled / den ≠ 0 := fun hzero => hlarge (by rw [hzero]; decide)
      rw [hquotient, Nat.le_div_iff_mul_le (Nat.two_pow_pos _), ← Nat.pow_add,
        show 52 + power = (scaled / den).log2 by omega]
      exact Nat.log2_self_le hne
  have hlow : unitsAt (power * 2 ^ 52 + quotient) * den = den <<< power * quotient := by
    rw [unitsAt_parts hlt.le hnormal, hshift]
    ring
  have hhigh : unitsAt (power * 2 ^ 52 + quotient + 1) * den =
      den <<< power * quotient + den <<< power := by
    rw [Nat.add_assoc, @unitsAt_parts power (quotient + 1) hlt (by omega), hshift]
    ring
  refine ⟨power * 2 ^ 52 + quotient, den <<< power, scaled % (den <<< power), ?_, ?_,
    Nat.mod_lt _ hpos, ?_⟩
  · exact (Nat.div_add_mod _ _).symm.trans (congrArg (· + _) hlow.symm)
  · exact hhigh.trans (congrArg (· + _) hlow.symm)
  · have hparity : (power * 2 ^ 52 + quotient) % 2 = quotient % 2 := by omega
    have hcode : nearestCode num den = power * 2 ^ 52 + roundHalfEven scaled (den <<< power) := rfl
    rw [hcode, hparity, roundHalfEven]
    split
    · exact (Nat.add_assoc ..).symm
    · exact Eq.refl _

/-- What is rounded to a code below those of the next power: the values below the middle between the
last significand and its carry. -/
theorem nearestCode_lt_iff (num : Nat) {den : Nat} (hden : 0 < den) (power : Nat) :
    nearestCode num den < power * 2 ^ 52 + 2 ^ 53 ↔
      2 * (num * unitsPerOne) < (2 ^ 54 - 1) * 2 ^ power * den := by
  let last := power * 2 ^ 52 + (2 ^ 53 - 1)
  have hnext : last + 1 = power * 2 ^ 52 + 2 ^ 53 := by omega
  have hodd : last % 2 = 1 := by omega
  have hmiddle : unitsAt last * den + unitsAt (last + 1) * den =
      (2 ^ 54 - 1) * 2 ^ power * den := by
    rw [hnext, unitsAt_parts (by decide) (.inr (by decide)),
      unitsAt_parts le_rfl (.inr (by decide)), ← Nat.add_mul, ← Nat.add_mul,
      show 2 ^ 53 - 1 + 2 ^ 53 = 2 ^ 54 - 1 by decide]
  have hle := (roundsTo_nearestCode num hden).le_iff (unitsAt_mul_strictMono hden) last
  rw [← hnext, Nat.lt_succ_iff, hle, hmiddle, hodd]
  exact or_iff_left fun h => absurd h.2 (by decide)

theorem nearestCode_lt_infinityCode_iff (num : Nat) {den : Nat} (hden : 0 < den) :
    nearestCode num den < infinityCode ↔
      2 * (num * unitsPerOne) < (2 ^ 54 - 1) * 2 ^ 2045 * den :=
  nearestCode_lt_iff num hden 2045

theorem nearestCode_eq_zero_of_lt {num den : Nat} (h : 2 * (num * unitsPerOne) < den) :
    nearestCode num den = 0 := by
  have hden : 0 < den := Nat.zero_lt_of_lt h
  have hle := (roundsTo_nearestCode num hden).le_iff (unitsAt_mul_strictMono hden) 0
  refine Nat.le_zero.1 (hle.2 (.inl ?_))
  show 2 * (num * unitsPerOne) < unitsAt 0 * den + unitsAt 1 * den
  rw [show unitsAt 0 = 0 from rfl, show unitsAt 1 = 1 from rfl]
  omega

/-! ## Early answers -/

theorem tenToThe_le_two_pow (n : Nat) : tenToThe (n * 3 / 10) ≤ 2 ^ n := by
  refine (Nat.pow_le_pow_iff_left (by decide : 10 ≠ 0)).1 ?_
  calc (10 ^ (n * 3 / 10)) ^ 10
      = 10 ^ (n * 3 / 10 * 10) := (Nat.pow_mul ..).symm
    _ ≤ 10 ^ (3 * n) := Nat.pow_le_pow_right (by decide) (by omega)
    _ = 1000 ^ n := Nat.pow_mul 10 3 n
    _ ≤ 1024 ^ n := Nat.pow_le_pow_left (by decide) n
    _ = 2 ^ (10 * n) := (Nat.pow_mul 2 10 n).symm
    _ = (2 ^ n) ^ 10 := by rw [Nat.mul_comm, Nat.pow_mul]

theorem two_pow_le_tenToThe (n : Nat) : 2 ^ n ≤ tenToThe (n / 3 + 1) :=
  calc 2 ^ n
    _ ≤ 2 ^ (3 * (n / 3 + 1)) := Nat.pow_le_pow_right (by decide) (by omega)
    _ = 8 ^ (n / 3 + 1) := Nat.pow_mul 2 3 _
    _ ≤ 10 ^ (n / 3 + 1) := Nat.pow_le_pow_left (by decide) _

theorem tenToThe_add (m n : Nat) : tenToThe (m + n) = tenToThe m * tenToThe n :=
  Nat.pow_add ..

theorem infinityCode_le_of_large {coefficient : Nat} {exponent : Int} (hne : coefficient ≠ 0)
    (hlarge : 330 < (coefficient.log2 * 3 / 10 : Nat) + exponent) :
    infinityCode ≤
      nearestCode (coefficient * tenToThe exponent.toNat) (tenToThe (-exponent).toNat) := by
  have hten : tenToThe 330 * tenToThe (-exponent).toNat ≤
      coefficient * tenToThe exponent.toNat :=
    calc tenToThe 330 * tenToThe (-exponent).toNat
      _ = tenToThe (330 + (-exponent).toNat) := (tenToThe_add ..).symm
      _ ≤ tenToThe (coefficient.log2 * 3 / 10 + exponent.toNat) := tenToThe_le (by omega)
      _ = tenToThe (coefficient.log2 * 3 / 10) * tenToThe exponent.toNat := tenToThe_add ..
      _ ≤ coefficient * tenToThe exponent.toNat :=
        Nat.mul_le_mul_right _ ((tenToThe_le_two_pow _).trans (Nat.log2_self_le hne))
  have hbound : (2 ^ 54 - 1) * 2 ^ 2045 ≤ 2 * (tenToThe 330 * unitsPerOne) := by decide +kernel
  rw [← Nat.not_lt, nearestCode_lt_infinityCode_iff _ (tenToThe_pos _), Nat.not_lt]
  calc (2 ^ 54 - 1) * 2 ^ 2045 * tenToThe (-exponent).toNat
    _ ≤ 2 * (tenToThe 330 * unitsPerOne) * tenToThe (-exponent).toNat :=
      Nat.mul_le_mul_right _ hbound
    _ = 2 * (tenToThe 330 * tenToThe (-exponent).toNat * unitsPerOne) := by
      rw [Nat.mul_assoc, Nat.mul_right_comm]
    _ ≤ 2 * (coefficient * tenToThe exponent.toNat * unitsPerOne) :=
      Nat.mul_le_mul_left _ (Nat.mul_le_mul_right _ hten)

theorem nearestCode_of_small {coefficient : Nat} {exponent : Int}
    (hsmall : ((coefficient.log2 + 1) / 3 + 1 : Nat) + exponent < -330) :
    nearestCode (coefficient * tenToThe exponent.toNat) (tenToThe (-exponent).toNat) = 0 := by
  have hzero : exponent.toNat = 0 := by omega
  have hten : coefficient * tenToThe 331 < tenToThe (-exponent).toNat :=
    calc coefficient * tenToThe 331
      _ < tenToThe ((coefficient.log2 + 1) / 3 + 1) * tenToThe 331 :=
        Nat.mul_lt_mul_of_pos_right (Nat.lt_log2_self.trans_le (two_pow_le_tenToThe _))
          (tenToThe_pos 331)
      _ = tenToThe ((coefficient.log2 + 1) / 3 + 1 + 331) := (tenToThe_add ..).symm
      _ ≤ tenToThe (-exponent).toNat := tenToThe_le (by omega)
  have hbound : 2 * unitsPerOne ≤ tenToThe 331 := by decide +kernel
  refine nearestCode_eq_zero_of_lt ?_
  rw [hzero, show tenToThe 0 = 1 from rfl, Nat.mul_one]
  calc 2 * (coefficient * unitsPerOne)
    _ = coefficient * (2 * unitsPerOne) := Nat.mul_left_comm ..
    _ ≤ coefficient * tenToThe 331 := Nat.mul_le_mul_left _ hbound
    _ < tenToThe (-exponent).toNat := hten

/-- **The early answers are those that rounding gives.** -/
theorem min_decimalCode (coefficient : Nat) (exponent : Int) :
    min infinityCode (decimalCode coefficient exponent) = min infinityCode
      (nearestCode (coefficient * tenToThe exponent.toNat) (tenToThe (-exponent).toNat)) := by
  unfold decimalCode
  split
  · rename_i hzero
    rw [hzero, Nat.zero_mul, nearestCode_eq_zero_of_lt (by rw [Nat.zero_mul]; exact tenToThe_pos _)]
  · rename_i hne
    split
    · rename_i hlarge
      rw [Nat.min_self, Nat.min_eq_left (infinityCode_le_of_large hne hlarge)]
    · split
      · rename_i hsmall
        rw [nearestCode_of_small hsmall]
      · split
        · rename_i hnonneg
          rw [show (-exponent).toNat = 0 by omega]
          rfl
        · rename_i hneg
          rw [show exponent.toNat = 0 by omega, show tenToThe 0 = 1 from rfl, Nat.mul_one]

/-! ## Values -/

/-- The magnitude of a finite number. -/
def magnitude (x : Binary64) : ℚ := x.units / unitsPerOne

/-- A finite number is the one that a value is rounded to: none is nearer, and if another one is as
near, the last bit of this one is zero. -/
structure IsNearest (v : ℚ) (x : Binary64) : Prop where
  finite : x.isFinite = true
  nearest : ∀ y : Binary64, y.isFinite = true → |x.magnitude - v| ≤ |y.magnitude - v|
  even : ∀ y : Binary64, y.isFinite = true → |y.magnitude - v| = |x.magnitude - v| →
    y.code ≠ x.code → x.code % 2 = 0

/-- The least value that is rounded to infinity. -/
def overflow : ℚ := 2 ^ 1024 - 2 ^ 970

theorem unitsPerOne_eq : unitsPerOne = 2 ^ 1074 := by
  unfold unitsPerOne
  generalize 1074 = n
  exact Nat.one_shiftLeft n

theorem unitsPerOne_pos : 0 < unitsPerOne := by decide +kernel

theorem abs_magnitude_sub (x : Binary64) (num : Nat) {den : Nat} (hden : 0 < den) :
    |x.magnitude - num / den| =
      (|((unitsAt x.code * den : Nat) : Int) - (num * unitsPerOne : Nat)| : Int) /
        (unitsPerOne * den : ℚ) := by
  have hunits : (0 : ℚ) < unitsPerOne := Nat.cast_pos.2 unitsPerOne_pos
  have hden' : (0 : ℚ) < den := Nat.cast_pos.2 hden
  rw [magnitude, units_eq_unitsAt, div_sub_div _ _ hunits.ne' hden'.ne', abs_div,
    abs_of_pos (mul_pos hunits hden')]
  push_cast
  rw [mul_comm (num : ℚ)]

theorem magnitude_lt {x y : Binary64} (h : x.code < y.code) : x.magnitude < y.magnitude := by
  have hunits : (0 : ℚ) < unitsPerOne := Nat.cast_pos.2 unitsPerOne_pos
  rw [magnitude, magnitude, div_lt_div_iff_of_pos_right hunits, Nat.cast_lt, units_eq_unitsAt,
    units_eq_unitsAt]
  exact unitsAt_strictMono h

/-- There is only one such number. -/
theorem IsNearest.code_unique {v : ℚ} {x y : Binary64} (hx : IsNearest v x) (hy : IsNearest v y) :
    x.code = y.code := by
  wlog hlt : x.code < y.code generalizing x y
  · exact (Nat.lt_or_ge y.code x.code).elim (fun h => (this hy hx h).symm) fun h => by omega
  have hdistance : |x.magnitude - v| = |y.magnitude - v| :=
    le_antisymm (hx.nearest y hy.finite) (hy.nearest x hx.finite)
  have hxeven := hx.even y hy.finite hdistance.symm hlt.ne'
  have hyeven := hy.even x hx.finite hdistance hlt.ne
  -- the odd code behind the lower one is nearer than both
  let z : Binary64 := ⟨false, x.code + 1, by have := y.code_lt; omega⟩
  have hz : z.isFinite = true := by
    have hfinite := hy.finite
    simp only [isFinite, decide_eq_true_eq] at hfinite ⊢
    exact Nat.lt_of_le_of_lt hlt hfinite
  have hxz : x.magnitude < z.magnitude := magnitude_lt (Nat.lt_succ_self x.code)
  have hzy : z.magnitude < y.magnitude := magnitude_lt (show x.code + 1 < y.code by omega)
  have hnearest := hx.nearest z hz
  rw [abs_eq_max_neg, abs_eq_max_neg] at hdistance hnearest
  grind

theorem isNearest_of_nearestCode {x : Binary64} {num den : Nat} (hden : 0 < den)
    (hx : x.isFinite = true) (hcode : x.code = nearestCode num den) :
    IsNearest (num / den) x := by
  have hround := roundsTo_nearestCode num hden
  have hmono := unitsAt_mul_strictMono hden
  have hpos : (0 : ℚ) < unitsPerOne * den :=
    mul_pos (Nat.cast_pos.2 unitsPerOne_pos) (Nat.cast_pos.2 hden)
  rw [← hcode] at hround
  refine ⟨hx, fun y _ => ?_, fun y _ hdistance hne => ?_⟩
  · rw [abs_magnitude_sub x num hden, abs_magnitude_sub y num hden,
      div_le_div_iff_of_pos_right hpos, Int.cast_le]
    exact hround.distance_le hmono y.code
  · rw [abs_magnitude_sub x num hden, abs_magnitude_sub y num hden, div_left_inj' hpos.ne',
      Int.cast_inj] at hdistance
    exact hround.even_of_distance_eq hmono hne hdistance

theorem overflow_mul : overflow * (2 * unitsPerOne) = ((2 ^ 54 - 1) * 2 ^ 2045 : Nat) := by
  have hunits : (unitsPerOne : ℚ) = 2 ^ 1074 := by
    rw [unitsPerOne_eq, Nat.cast_pow, Nat.cast_ofNat]
  have hsplit : (2 : ℚ) ^ 1024 = 2 ^ 54 * 2 ^ 970 := by rw [← pow_add]
  have htop : (2 : ℚ) ^ 2045 = 2 ^ 970 * (2 * 2 ^ 1074) := by rw [← pow_succ', ← pow_add]
  have hodd : ((2 ^ 54 - 1 : Nat) : ℚ) = 2 ^ 54 - 1 := by norm_num
  have hfactor (a b : ℚ) : (2 ^ 54 * a - a) * b = (2 ^ 54 - 1) * (a * b) := by ring
  rw [overflow, hunits, hsplit, Nat.cast_mul, hodd, Nat.cast_pow, Nat.cast_ofNat, htop]
  exact hfactor _ _

theorem lt_overflow_iff (num : Nat) {den : Nat} (hden : 0 < den) :
    (num / den : ℚ) < overflow ↔ 2 * (num * unitsPerOne) < (2 ^ 54 - 1) * 2 ^ 2045 * den := by
  have hunits : (0 : ℚ) < 2 * unitsPerOne :=
    mul_pos two_pos (Nat.cast_pos.2 unitsPerOne_pos)
  rw [div_lt_iff₀ (Nat.cast_pos.2 hden), ← mul_lt_mul_iff_left₀ hunits, mul_right_comm,
    overflow_mul, ← Nat.cast_mul, ← @Nat.cast_lt ℚ, Nat.mul_left_comm, Nat.cast_mul num,
    Nat.cast_mul 2, Nat.cast_ofNat]

theorem decimal_eq_div (coefficient : Nat) (exponent : Int) :
    (coefficient : ℚ) * 10 ^ exponent =
      (coefficient * tenToThe exponent.toNat : Nat) / (tenToThe (-exponent).toNat : Nat) := by
  have hcast (n : Nat) : ((tenToThe n : Nat) : ℚ) = 10 ^ n := Nat.cast_pow 10 n
  rw [Nat.cast_mul, hcast, hcast]
  obtain ⟨n, rfl | rfl⟩ := exponent.eq_nat_or_neg
  · rw [Int.toNat_natCast, Int.toNat_neg_natCast, pow_zero, div_one, zpow_natCast]
  · rw [Int.neg_neg, Int.toNat_natCast, Int.toNat_neg_natCast, pow_zero, mul_one, zpow_neg,
      zpow_natCast, div_eq_mul_inv]

section Decimal

variable (negative : Bool) (coefficient : Nat) (exponent : Int)

theorem code_ofDecimal : (ofDecimal negative coefficient exponent).code = min infinityCode
    (nearestCode (coefficient * tenToThe exponent.toNat) (tenToThe (-exponent).toNat)) :=
  min_decimalCode coefficient exponent

/-- **A decimal has a finite double exactly if its value is below the overflow threshold.** -/
theorem isFinite_ofDecimal_iff : (ofDecimal negative coefficient exponent).isFinite = true ↔
    (coefficient : ℚ) * 10 ^ exponent < overflow := by
  rw [decimal_eq_div, lt_overflow_iff _ (tenToThe_pos _),
    ← nearestCode_lt_infinityCode_iff _ (tenToThe_pos _), isFinite, decide_eq_true_eq,
    code_ofDecimal]
  omega

/-- **A finite double that a decimal is read as is the nearest one.** -/
theorem isNearest_ofDecimal (h : (ofDecimal negative coefficient exponent).isFinite = true) :
    IsNearest (coefficient * 10 ^ exponent) (ofDecimal negative coefficient exponent) := by
  rw [decimal_eq_div]
  refine isNearest_of_nearestCode (tenToThe_pos _) h ?_
  rw [isFinite, decide_eq_true_eq, code_ofDecimal] at h
  rw [code_ofDecimal]
  omega

end Decimal

/-! ## Values that need no rounding -/

/-- Each significand of 53 bits is found at each power. -/
theorem exists_unitsAt {m : Nat} (hm : m < 2 ^ 53) (p : Nat) :
    ∃ code < p * 2 ^ 52 + 2 ^ 53, unitsAt code = m * 2 ^ p := by
  induction p generalizing m with
  | zero => exact ⟨0 * 2 ^ 52 + m, by omega, unitsAt_parts hm.le (.inl rfl)⟩
  | succ p ih =>
    rcases Nat.lt_or_ge m (2 ^ 52) with hsmall | hlarge
    · obtain ⟨code, hlt, hunits⟩ := @ih (2 * m) (by omega)
      have hle : p * 2 ^ 52 ≤ (p + 1) * 2 ^ 52 := Nat.mul_le_mul_right _ (Nat.le_succ p)
      refine ⟨code, hlt.trans_le (Nat.add_le_add_right hle _), ?_⟩
      rw [hunits, Nat.pow_succ', Nat.mul_left_comm, Nat.mul_assoc]
    · exact ⟨(p + 1) * 2 ^ 52 + m, by omega, unitsAt_parts hm.le (.inr hlarge)⟩

/-- A quotient that has 53 bits is not changed by rounding. -/
theorem units_of_exact (negative : Bool) {num den m p : Nat} (hden : 0 < den) (hm : m < 2 ^ 53)
    (hp : p ≤ 2045) (hexact : num * unitsPerOne = m * 2 ^ p * den) :
    (ofCode negative (nearestCode num den)).units = m * 2 ^ p := by
  obtain ⟨code, hlt, hunits⟩ := exists_unitsAt hm p
  have hmono := unitsAt_mul_strictMono hden
  have hcode : nearestCode num den = code := by
    have hnear := (roundsTo_nearestCode num hden).distance_le hmono code
    rw [hexact, hunits, sub_self, abs_zero, abs_nonpos_iff, sub_eq_zero, Int.natCast_inj,
      ← hunits] at hnear
    exact hmono.injective hnear
  have hfinite : min infinityCode code = code := by
    unfold infinityCode
    omega
  rw [units_eq_unitsAt, hcode, ← hunits]
  exact congrArg unitsAt hfinite

/-- Whole numbers of 53 bits are doubles. -/
theorem units_ofNat {n : Nat} (hn : n < 2 ^ 53) : (ofNat n).units = n * 2 ^ 1074 :=
  units_of_exact false Nat.one_pos hn (by decide) (by rw [unitsPerOne_eq, Nat.mul_one])

/-- Division by a power of two is exact. -/
theorem units_quotient {x : Binary64} {m p k : Nat} (hm : m < 2 ^ 53) (hp : p ≤ 2045)
    (hx : x.units = m * 2 ^ (p + k)) : (x.quotient (2 ^ k)).units = m * 2 ^ p := by
  refine units_of_exact _ (Nat.mul_pos unitsPerOne_pos (Nat.two_pow_pos k)) hm hp ?_
  rw [hx, Nat.pow_add]
  ring

end Binary64

end DesignTokens
