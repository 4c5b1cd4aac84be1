import DesignTokens.Number.Digits
import DesignTokens.Text.Digit

/-!
# Decimal literals

A literal is a sign, digits with at most one point and at least one digit, and an exponent; the
sign and the exponent may be missing. It is read to the nearest double.

The digits of an exponent count only as long as the magnitude before them is below `2 ^ 16`. With
fewer than some sixty thousand digits in front, the number is zero or infinite by then anyway.
-/

namespace DesignTokens

/-- The parts of a decimal literal, in digits as written. -/
structure DecimalLiteral where
  negative : Bool
  whole : List Char
  fraction : List Char
  exponent : Int
deriving DecidableEq, Repr

namespace DecimalLiteral

/-- A sign in front of a text, and the rest of the text. -/
def splitSign : List Char → Bool × List Char
  | '-' :: rest => (true, rest)
  | '+' :: rest => (false, rest)
  | s => (false, s)

/-- The leading ASCII digits of a text, and the rest of it. -/
def splitDigits (s : List Char) : List Char × List Char :=
  (s.takeWhile Text.isAsciiDigit, s.dropWhile Text.isAsciiDigit)

/-- A magnitude from which on further digits of an exponent do not count. -/
def exponentEnough : Nat := 0x10000

def exponentMagnitude (digits : List Char) : Nat :=
  digits.foldl
    (fun n c => if n < exponentEnough then 10 * n + (c.toNat - '0'.toNat) else n) 0

/-- The exponent that a whole text stands for: nothing, or a letter, a sign and digits. -/
def readExponent : List Char → Option Int
  | [] => some 0
  | mark :: rest =>
    if mark = 'e' ∨ mark = 'E' then
      let (negative, digits) := splitSign rest
      if digits ≠ [] ∧ digits.all Text.isAsciiDigit then
        let magnitude : Int := exponentMagnitude digits
        some (if negative then -magnitude else magnitude)
      else none
    else none

/-- Reads a whole text as a literal. -/
def read (s : List Char) : Option DecimalLiteral :=
  let (negative, unsigned) := splitSign s
  let (whole, afterWhole) := splitDigits unsigned
  let (fraction, tail) := match afterWhole with
    | '.' :: rest => splitDigits rest
    | rest => ([], rest)
  if whole = [] ∧ fraction = [] then none
  else (readExponent tail).map fun exponent => ⟨negative, whole, fraction, exponent⟩

/-- The double nearest to a literal. -/
def value (l : DecimalLiteral) : Binary64 :=
  .ofDecimal l.negative (decimalValue (l.whole ++ l.fraction))
    (l.exponent - l.fraction.length)

end DecimalLiteral

end DesignTokens
