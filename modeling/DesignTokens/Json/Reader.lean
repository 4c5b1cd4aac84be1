import DesignTokens.Json.Basic
import DesignTokens.Number.Literal

/-!
# Reading JSON

A reader that keeps the order of members. A number without a point and without an exponent is a
whole number as long as it fits into 64 bits, and a double otherwise; `-0` is a double, because
only a double has a negative zero. At most two steps are made for a character, so twice the length of
the text bounds the reading; each part of it gets what is left of that bound.
-/

namespace DesignTokens.Json

/-! ## Blanks, digits and texts -/

/-- The four characters that may stand between the parts of a value. -/
def isSpace (c : Char) : Bool :=
  c == ' ' || c == '\n' || c == '\r' || c == '\t'

/-- A text without the blanks at its start. -/
def skipSpace (s : List Char) : List Char :=
  s.dropWhile isSpace

def hexValue (c : Char) : Option Nat :=
  if Text.isAsciiDigit c then some (c.toNat - 48)
  else if 65 ≤ c.toNat ∧ c.toNat ≤ 70 then some (c.toNat - 55)
  else if 97 ≤ c.toNat ∧ c.toNat ≤ 102 then some (c.toNat - 87)
  else none

/-- The code unit of four hex digits, and the text behind them. -/
def readUnit : List Char → Option (Nat × List Char)
  | a :: b :: c :: d :: rest => do
    let a ← hexValue a
    let b ← hexValue b
    let c ← hexValue c
    let d ← hexValue d
    return (a * 4096 + b * 256 + c * 16 + d, rest)
  | _ => none

/-- The character that a letter stands for behind a backslash. -/
def unescape (c : Char) : Option Char :=
  if c = '"' ∨ c = '\\' ∨ c = '/' then some c
  else if c = 'b' then some '\x08'
  else if c = 'f' then some '\x0c'
  else if c = 'n' then some '\n'
  else if c = 'r' then some '\r'
  else if c = 't' then some '\t'
  else none

/-- The rest of a text in quotes, and what stands behind the closing quote. A character beyond the
first plane is written as two units; a unit that lacks its partner is refused. -/
def readQuoted : Nat → List Char → List Char → Option (String × List Char)
  | 0, _, _ => none
  | _ + 1, [], _ => none
  | _ + 1, '"' :: rest, done => some (String.ofList done.reverse, rest)
  | fuel + 1, '\\' :: 'u' :: rest, done =>
    match readUnit rest with
    | none => none
    | some (high, rest) =>
      if 0xD800 ≤ high ∧ high < 0xDC00 then
        match rest with
        | '\\' :: 'u' :: rest =>
          match readUnit rest with
          | some (low, rest) =>
            if 0xDC00 ≤ low ∧ low < 0xE000 then
              readQuoted fuel rest
                (Char.ofNat (0x10000 + (high - 0xD800) * 1024 + (low - 0xDC00)) :: done)
            else none
          | none => none
        | _ => none
      else if 0xDC00 ≤ high ∧ high < 0xE000 then none
      else readQuoted fuel rest (Char.ofNat high :: done)
  | fuel + 1, '\\' :: c :: rest, done =>
    match unescape c with
    | some c => readQuoted fuel rest (c :: done)
    | none => none
  | fuel + 1, c :: rest, done =>
    if c.toNat < 32 ∨ c = '\\' then none else readQuoted fuel rest (c :: done)

/-! ## Numbers -/

/-- Whether a character may stand in a number. -/
def isNumberChar (c : Char) : Bool :=
  Text.isAsciiDigit c || c == '-' || c == '+' || c == '.' || c == 'e' || c == 'E'

/-- Whether the digits before a point are written as JSON asks: at least one, no leading zero. -/
def wellFormedWhole : List Char → Bool
  | [] => false
  | '0' :: rest => rest.isEmpty
  | _ :: _ => true

/-- The number that a whole text stands for. -/
def readNumber (s : List Char) : Option Json :=
  match s with
  | '+' :: _ => none
  | _ =>
    let unsigned := (DecimalLiteral.splitSign s).2
    let tail := unsigned.dropWhile Text.isAsciiDigit
    match DecimalLiteral.read s with
    | none => none
    | some l =>
      if !wellFormedWhole l.whole then none
      else if tail.head? = some '.' && l.fraction.isEmpty then none
      else if tail.isEmpty then
        let magnitude := decimalValue l.whole
        if l.negative then
          if 0 < magnitude ∧ magnitude ≤ 0x8000000000000000 then some (integer (-magnitude))
          else some (number l.value)
        else if magnitude < 0x10000000000000000 then some (integer magnitude)
        else some (number l.value)
      else if l.value.isFinite then some (number l.value) else none

/-! ## Values -/

/-- A word at the start of a text, and what stands behind it. -/
def dropWord : List Char → List Char → Option (List Char)
  | [], s => some s
  | _ :: _, [] => none
  | w :: word, c :: rest => if w = c then dropWord word rest else none

mutual

/-- The value at the start of a text, and the text behind it. -/
def readValue : Nat → List Char → Option (Json × List Char)
  | 0, _ => none
  | fuel + 1, s =>
    match skipSpace s with
    | [] => none
    | '"' :: rest => (readQuoted fuel rest []).map fun (t, rest) => (string t, rest)
    | '[' :: rest =>
      match skipSpace rest with
      | ']' :: rest => some (array [], rest)
      | rest => (readItems fuel rest []).map fun (items, rest) => (array items, rest)
    | '\x7b' :: rest =>
      match skipSpace rest with
      | '\x7d' :: rest => some (object [], rest)
      | rest => (readMembers fuel rest []).map fun (members, rest) => (object members, rest)
    | 'n' :: rest => (dropWord ['u', 'l', 'l'] rest).map fun rest => (null, rest)
    | 't' :: rest => (dropWord ['r', 'u', 'e'] rest).map fun rest => (bool true, rest)
    | 'f' :: rest => (dropWord ['a', 'l', 's', 'e'] rest).map fun rest => (bool false, rest)
    | s => (readNumber (s.takeWhile isNumberChar)).map fun n => (n, s.dropWhile isNumberChar)

/-- The items of an array from one on, behind those already read in reverse. -/
def readItems : Nat → List Char → List Json → Option (List Json × List Char)
  | 0, _, _ => none
  | fuel + 1, s, done =>
    match readValue fuel s with
    | none => none
    | some (v, rest) =>
      match skipSpace rest with
      | ',' :: rest => readItems fuel rest (v :: done)
      | ']' :: rest => some ((v :: done).reverse, rest)
      | _ => none

/-- The members of an object from one on, behind those already read in reverse. -/
def readMembers :
    Nat → List Char → List (String × Json) → Option (List (String × Json) × List Char)
  | 0, _, _ => none
  | fuel + 1, s, done =>
    match skipSpace s with
    | '"' :: rest =>
      match readQuoted fuel rest [] with
      | none => none
      | some (key, rest) =>
        match skipSpace rest with
        | ':' :: rest =>
          match readValue fuel rest with
          | none => none
          | some (v, rest) =>
            match skipSpace rest with
            | ',' :: rest => readMembers fuel rest ((key, v) :: done)
            | '\x7d' :: rest => some (((key, v) :: done).reverse, rest)
            | _ => none
        | _ => none
    | _ => none

end

/-- The value that a whole text stands for. -/
def read (text : String) : Option Json :=
  let s := text.toList
  match readValue (2 * s.length + 2) s with
  | some (v, rest) => if (skipSpace rest).isEmpty then some v else none
  | none => none

end DesignTokens.Json
