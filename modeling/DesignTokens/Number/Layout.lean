import DesignTokens.Number.Shortest

/-!
# Number text

The digits of a number are laid out in two ways. Plain text never has an exponent and writes a
whole number without a point; lengths in stylesheets use it. Document text keeps a point in every
number that it writes positionally, and goes over to an exponent for numbers from `10 ^ 16` on
and for those below `10 ^ (-5)`.
-/

namespace DesignTokens

/-- The decisions of a number format. -/
structure NumberStyle where
  /-- Which of two equally near decimals is written. -/
  tie : TieBreak
  /-- Whether a number whose point comes after this many digits is written without an exponent. -/
  positional : Int → Bool
  /-- Whether a whole number keeps a point and a zero. -/
  keepsPoint : Bool

namespace NumberStyle

/-- The style of lengths: never an exponent, no point in whole numbers. -/
def plain : NumberStyle where
  tie := .upward
  positional _ := true
  keepsPoint := false

/-- The style of documents: positional from `0.00001` up to sixteen digits before the point. -/
def document : NumberStyle where
  tie := .toEven
  positional point := -5 < point && point ≤ 16
  keepsPoint := true

end NumberStyle

def Decimal.digits (d : Decimal) : List Char :=
  Nat.toDigits 10 d.coefficient

/-- How many digits stand before the point; zero or negative for numbers below one tenth. -/
def Decimal.point (d : Decimal) : Int :=
  d.digits.length + d.exponent

/-- Digits with the point after the first `point` of them, zeros filled in where none are. -/
def positionalText (keepsPoint : Bool) (digits : List Char) (point : Int) : List Char :=
  if (digits.length : Int) ≤ point then
    digits ++ List.replicate (point.toNat - digits.length) '0'
      ++ (if keepsPoint then ['.', '0'] else [])
  else if 0 < point then
    digits.take point.toNat ++ '.' :: digits.drop point.toNat
  else
    '0' :: '.' :: (List.replicate (-point).toNat '0' ++ digits)

/-- Digits with the point after the first one and the exponent written out with its sign. -/
def scientificText (digits : List Char) (point : Int) : List Char :=
  digits.take 1
    ++ (if digits.length ≤ 1 then [] else '.' :: digits.drop 1)
    ++ 'e' :: (if 0 < point then '+' else '-') :: Nat.toDigits 10 (point - 1).natAbs

def NumberStyle.decimalText (style : NumberStyle) (d : Decimal) : List Char :=
  if style.positional d.point then positionalText style.keepsPoint d.digits d.point
  else scientificText d.digits d.point

def NumberStyle.magnitudeText (style : NumberStyle) (x : Binary64) : List Char :=
  if x.code = 0 then (if style.keepsPoint then ['0', '.', '0'] else ['0'])
  else style.decimalText (x.shortest style.tie)

/-- A number in a style; infinities and non-numbers have words. -/
def NumberStyle.text (style : NumberStyle) (x : Binary64) : String :=
  if x.isNaN then "NaN"
  else String.ofList <|
    (if x.negative then ['-'] else [])
      ++ (if x.isFinite then style.magnitudeText x else ['i', 'n', 'f'])

end DesignTokens
