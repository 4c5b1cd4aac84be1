import DesignTokens.Number.Literal
import DesignTokens.Toml.Basic

/-!
# Words of TOML

Values without quotes and brackets are single words: truth values, whole numbers of 64 bits in four
bases, decimal numbers, dates and times. Digits may be parted by single underscores.
-/

namespace DesignTokens.Toml

/-- Whether a character may stand in a word. -/
def isWordChar (c : Char) : Bool :=
  c.isAlphanum || c == '+' || c == '-' || c == '.' || c == ':' || c == '_'

/-- Whether a text behind a digit, or behind none, has digits of a class with single underscores
between them, and ends in a digit. -/
def isParted (isDigit : Char → Bool) : Bool → List Char → Bool
  | behindDigit, [] => behindDigit
  | behindDigit, '_' :: rest => behindDigit && isParted isDigit false rest
  | _, c :: rest => isDigit c && isParted isDigit true rest

/-- The digits of a class in a text that has single underscores between them. -/
def partedDigits (isDigit : Char → Bool) (s : List Char) : Option (List Char) :=
  if isParted isDigit false s then some (s.filter (· ≠ '_')) else none

/-! ## Whole numbers -/

/-- The value of a digit in any base up to sixteen. -/
def digitValue (c : Char) : Nat :=
  if c.toNat < 58 then c.toNat - 48
  else if c.toNat < 71 then c.toNat - 55
  else c.toNat - 87

/-- Whether digits in a base stand for a number that fits 63 bits. In no base do more than 63
digits behind the zeros. -/
def fits (base : Nat) (digits : List Char) : Bool :=
  let digits := digits.dropWhile (· = '0')
  digits.length ≤ 63
    && digits.foldl (fun n c => n * base + digitValue c) 0 < 0x8000000000000000

/-- A whole number in a base with a mark. -/
def isMarkedInteger (base : Nat) (isDigit : Char → Bool) (s : List Char) : Bool :=
  match partedDigits isDigit s with
  | some digits => fits base digits
  | none => false

/-- Decimal digits without a zero in front. -/
def plainWhole (s : List Char) : Option (List Char) :=
  match partedDigits Text.isAsciiDigit s with
  | some digits => if digits.head? = some '0' ∧ digits.length ≠ 1 then none else some digits
  | none => none

/-- Whether a word is a whole number. -/
def isInteger : List Char → Bool
  | '0' :: 'x' :: rest => isMarkedInteger 16 Text.isHexDigit rest
  | '0' :: 'o' :: rest => isMarkedInteger 8 (fun c => '0' ≤ c ∧ c ≤ '7') rest
  | '0' :: 'b' :: rest => isMarkedInteger 2 (fun c => c = '0' ∨ c = '1') rest
  | s =>
    let (negative, unsigned) := DecimalLiteral.splitSign s
    match plainWhole unsigned with
    | some digits =>
      let n := decimalValue digits
      n < 0x8000000000000000 || (negative && n = 0x8000000000000000)
    | none => false

/-! ## Decimal numbers -/

/-- Splits a word at the first character of a kind; the character itself is left out. -/
def cutAt (mark : Char → Bool) (s : List Char) : List Char × Option (List Char) :=
  (s.takeWhile (!mark ·), match s.dropWhile (!mark ·) with
    | [] => none
    | _ :: rest => some rest)

/-- Whether a word is a decimal number: a whole part, and a fraction or an exponent or both. It
must not be too large for a double. -/
def isDecimal (s : List Char) : Bool :=
  let (negative, unsigned) := DecimalLiteral.splitSign s
  if unsigned = ['i', 'n', 'f'] ∨ unsigned = ['n', 'a', 'n'] then true
  else
    let (mantissa, exponent) := cutAt (fun c => c = 'e' ∨ c = 'E') unsigned
    let (whole, fraction) := cutAt (· = '.') mantissa
    let exponentOk := match exponent with
      | none => true
      | some e => (partedDigits Text.isAsciiDigit (DecimalLiteral.splitSign e).2).isSome
    let fractionOk := match fraction with
      | none => true
      | some f => (partedDigits Text.isAsciiDigit f).isSome
    let value := (DecimalLiteral.read (s.filter (· ≠ '_'))).map (·.value)
    (plainWhole whole).isSome && exponentOk && fractionOk
      && (exponent.isSome || fraction.isSome)
      && (negative || (value.map (·.isFinite)).getD false)

/-! ## Dates and times -/

/-- A number of exactly so many digits at the start of a text, and the rest. -/
def fixedNumber (width : Nat) (s : List Char) : Option (Nat × List Char) :=
  let digits := s.take width
  if digits.length = width ∧ digits.all Text.isAsciiDigit then
    some (decimalValue digits, s.drop width)
  else none

/-- A sign at the start of a text is dropped. -/
def expect (c : Char) : List Char → Option (List Char)
  | [] => none
  | d :: rest => if c = d then some rest else none

def daysIn (year month : Nat) : Nat :=
  if month = 2 then
    if year % 4 = 0 ∧ (year % 100 ≠ 0 ∨ year % 400 = 0) then 29 else 28
  else if month ∈ [4, 6, 9, 11] then 30
  else 31

/-- A date at the start of a text is dropped. -/
def dropDate (s : List Char) : Option (List Char) := do
  let (year, s) ← fixedNumber 4 s
  let s ← expect '-' s
  let (month, s) ← fixedNumber 2 s
  let s ← expect '-' s
  let (day, s) ← fixedNumber 2 s
  if 1 ≤ month ∧ month ≤ 12 ∧ 1 ≤ day ∧ day ≤ daysIn year month then some s else none

/-- A time of day at the start of a text is dropped. -/
def dropTime (s : List Char) : Option (List Char) := do
  let (hour, s) ← fixedNumber 2 s
  let s ← expect ':' s
  let (minute, s) ← fixedNumber 2 s
  let s ← expect ':' s
  let (second, s) ← fixedNumber 2 s
  if 23 < hour ∨ 59 < minute ∨ 60 < second then none
  else match s with
    | '.' :: c :: rest =>
      if Text.isAsciiDigit c then some (rest.dropWhile Text.isAsciiDigit) else none
    | '.' :: [] => none
    | s => some s

/-- Whether a text is a distance from universal time, or empty. -/
def isZone : List Char → Bool
  | [] => true
  | ['Z'] | ['z'] => true
  | c :: rest =>
    if c = '+' ∨ c = '-' then
      match (do
        let (hour, s) ← fixedNumber 2 rest
        let s ← expect ':' s
        let (minute, s) ← fixedNumber 2 s
        return hour ≤ 23 ∧ minute ≤ 59 ∧ s = [] : Option Bool) with
      | some ok => ok
      | none => false
    else false

/-- Whether a text is a date, a time of day, or both with or without a zone. -/
def isTime (s : List Char) : Bool :=
  match dropDate s with
  | some [] => true
  | some (c :: rest) =>
    if c = 'T' ∨ c = 't' ∨ c = ' ' then
      match dropTime rest with
      | some zone => isZone zone
      | none => false
    else false
  | none => dropTime s = some []

/-! ## Words -/

def readWord (s : List Char) : Option Item :=
  if s = ['t', 'r', 'u', 'e'] then some (.bool true)
  else if s = ['f', 'a', 'l', 's', 'e'] then some (.bool false)
  else if isTime s then some .time
  else if isInteger s || isDecimal s then some .number
  else none

end DesignTokens.Toml
