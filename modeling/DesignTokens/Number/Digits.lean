import DesignTokens.Number.Rounding

/-!
# The value of decimal digits

A long run of digits is cut into halves, and the values of the halves are put together. The halves
are multiplied as large numbers, so a million digits cost little more than one multiplication. The
value is that of reading one digit after the other.
-/

namespace DesignTokens

/-- The number of digits up to which they are read one after the other. -/
def shortRun : Nat := 32

/-- The value of decimal digits, halved so many times as long as they are many. -/
def halvedValue : Nat → List Char → Nat
  | 0, digits => Nat.ofDigitChars 10 digits 0
  | halvings + 1, digits =>
    let length := digits.length
    if length ≤ shortRun then Nat.ofDigitChars 10 digits 0
    else
      halvedValue halvings (digits.take (length / 2)) * tenToThe (length - length / 2)
        + halvedValue halvings (digits.drop (length / 2))

/-- The value of decimal digits; none at all are zero. -/
def decimalValue (digits : List Char) : Nat :=
  halvedValue digits.length.log2 digits

theorem ofDigitChars_take_drop (digits : List Char) (k : Nat) :
    Nat.ofDigitChars 10 digits 0 =
      Nat.ofDigitChars 10 (digits.take k) 0 * tenToThe (digits.length - k)
        + Nat.ofDigitChars 10 (digits.drop k) 0 := by
  conv => lhs; rw [← List.take_append_drop k digits]
  rw [Nat.ofDigitChars_append, Nat.ofDigitChars_eq_ofDigitChars_zero, List.length_drop,
    Nat.mul_comm]
  rfl

theorem halvedValue_eq (halvings : Nat) (digits : List Char) :
    halvedValue halvings digits = Nat.ofDigitChars 10 digits 0 := by
  induction halvings generalizing digits with
  | zero => rfl
  | succ halvings ih =>
    simp only [halvedValue]
    split
    · rfl
    · rw [ih, ih]
      exact (ofDigitChars_take_drop digits (digits.length / 2)).symm

theorem decimalValue_eq (digits : List Char) :
    decimalValue digits = Nat.ofDigitChars 10 digits 0 :=
  halvedValue_eq _ digits

end DesignTokens
