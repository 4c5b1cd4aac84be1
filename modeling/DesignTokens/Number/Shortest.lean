import DesignTokens.Number.Rounding

/-!
# Shortest decimals

A finite number is written with the fewest digits that read back to it, and with the nearest to
its value among those. The search goes from coarse powers of ten to fine ones; on each it tests
the two multiples that enclose the value. The first power with a hit is the answer: if some
multiple of a power reads back, so does one of the two that enclose the value.
-/

namespace DesignTokens

/-- A non-negative decimal, `coefficient * 10 ^ exponent`. -/
structure Decimal where
  coefficient : Nat
  exponent : Int
deriving DecidableEq, Repr

/-- Which of two equally near decimals is taken. -/
inductive TieBreak where
  | upward
  | toEven
deriving DecidableEq, Repr

namespace Binary64

/-- The double nearest to a decimal, without a sign. -/
def codeOf (d : Decimal) : Nat :=
  decimalCode d.coefficient d.exponent

/-- The magnitude of a number as a quotient, counted in the power of ten `10 ^ k`. -/
def magnitudeIn (x : Binary64) (k : Int) : Nat × Nat :=
  if 0 ≤ k then (x.units, unitsPerOne * tenToThe k.toNat)
  else (x.units * tenToThe (-k).toNat, unitsPerOne)

/-- The multiple of `10 ^ k` that reads back to `x` and is nearest to its value, if there is one. -/
def readsBackIn (tie : TieBreak) (x : Binary64) (k : Int) : Option Decimal :=
  let (num, den) := x.magnitudeIn k
  let below : Decimal := ⟨num / den, k⟩
  let above : Decimal := ⟨num / den + 1, k⟩
  let rest := num % den
  match codeOf below == x.code, codeOf above == x.code with
  | false, false => none
  | true, false => some below
  | false, true => some above
  | true, true =>
    if 2 * rest < den then some below
    else if den < 2 * rest then some above
    else match tie with
      | .upward => some above
      | .toEven => if below.coefficient % 2 = 0 then some below else some above

/-- The coarsest decimal that reads back, tried on `tries` powers of ten downwards from `k`. -/
def coarsestFrom (tie : TieBreak) (x : Binary64) : Nat → Int → Option Decimal
  | 0, _ => none
  | tries + 1, k =>
    match readsBackIn tie x k with
    | some d => some d
    | none => coarsestFrom tie x tries (k - 1)

/-- A power of ten just above the magnitude of a number other than zero. -/
def topPower (x : Binary64) : Int :=
  ((x.units.log2 : Int) - 1074) * 30103 / 100000 + 2

/-- The shortest decimal of a finite number other than zero. Seventeen digits always suffice; the
exact value stands behind them only to make the search total. -/
def shortest (tie : TieBreak) (x : Binary64) : Decimal :=
  (coarsestFrom tie x 24 x.topPower).getD ⟨x.units * Nat.pow 5 1074, -1074⟩

/-- A decimal found on one power of ten reads back. -/
theorem codeOf_of_readsBackIn {tie : TieBreak} {x : Binary64} {k : Int} {d : Decimal}
    (h : readsBackIn tie x k = some d) : codeOf d = x.code := by
  simp only [readsBackIn] at h
  split at h
  · exact absurd h (by simp)
  · rename_i hb _
    rw [← Option.some.inj h]; exact beq_iff_eq.1 hb
  · rename_i _ ha
    rw [← Option.some.inj h]; exact beq_iff_eq.1 ha
  · rename_i hb ha
    rw [beq_iff_eq] at hb ha
    split at h
    · rw [← Option.some.inj h]; exact hb
    · split at h
      · rw [← Option.some.inj h]; exact ha
      · cases tie
        · rw [← Option.some.inj h]; exact ha
        · simp only at h
          split at h
          · rw [← Option.some.inj h]; exact hb
          · rw [← Option.some.inj h]; exact ha

/-- A decimal found by the search reads back. -/
theorem codeOf_of_coarsestFrom {tie : TieBreak} {x : Binary64} {tries : Nat} {k : Int}
    {d : Decimal} (h : coarsestFrom tie x tries k = some d) : codeOf d = x.code := by
  induction tries generalizing k with
  | zero => simp [coarsestFrom] at h
  | succ n ih =>
    simp only [coarsestFrom] at h
    split at h
    · rename_i d' hd
      rw [← Option.some.inj h]
      exact codeOf_of_readsBackIn hd
    · exact ih h

end Binary64

end DesignTokens
