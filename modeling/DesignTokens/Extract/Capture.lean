import DesignTokens.Number.Literal
import DesignTokens.Text.Blank
import DesignTokens.Token.Value

/-!
# Captured texts

What a rule captures is text. It is read as a color, a number, a whole number of milliseconds or
an offset, or refused.
-/

namespace DesignTokens.Capture

/-! ## Colors -/

/-- The upper-case form of a hex digit. -/
def upperHex (c : Char) : Char :=
  if 97 ≤ c.toNat ∧ c.toNat ≤ 102 then Char.ofNat (c.toNat - 32) else c

/-- A color in stylesheet notation. Six digits are a color as they stand. Of eight, the first two
are the alpha; it goes to the end, and is left out when the color is opaque. -/
def readColor (raw : List Char) : Option String :=
  if raw.all Text.isHexDigit then
    match raw.map upperHex with
    | [r₁, r₂, g₁, g₂, b₁, b₂] => some (String.ofList ['#', r₁, r₂, g₁, g₂, b₁, b₂])
    | [a₁, a₂, r₁, r₂, g₁, g₂, b₁, b₂] =>
      if a₁ = 'F' ∧ a₂ = 'F' then some (String.ofList ['#', r₁, r₂, g₁, g₂, b₁, b₂])
      else some (String.ofList ['#', r₁, r₂, g₁, g₂, b₁, b₂, a₁, a₂])
    | _ => none
  else none

/-! ## Numbers -/

/-- A finite number, written as a decimal literal with blanks around it. -/
def readNumber (raw : List Char) : Option Binary64 :=
  ((DecimalLiteral.read (Text.trim raw)).map (·.value)).filter (·.isFinite)

/-- A whole number below `2 ^ 64`, written in ASCII digits with blanks around it. -/
def readMilliseconds (raw : List Char) : Option Nat :=
  let digits := Text.trim raw
  if digits ≠ [] ∧ digits.all Text.isAsciiDigit then
    let n := decimalValue digits
    if n < 0x10000000000000000 then some n else none
  else none

/-- A number behind at most one minus sign of its own. -/
def readSigned : List Char → Option Binary64
  | '-' :: rest => (readNumber rest).map (·.neg)
  | raw => readNumber raw

/-- Two numbers with commas around them; what stands between two commas may be blank. -/
def readOffset (raw : List Char) : Option Offset :=
  match ((raw.splitOn ',').map Text.trim).filter (!·.isEmpty) with
  | [x, y] => do return ⟨← readSigned x, ← readSigned y⟩
  | _ => none

end DesignTokens.Capture
