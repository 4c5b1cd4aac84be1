import DesignTokens.Json.Basic
import DesignTokens.Number.Layout

/-!
# JSON text

Values are written on one line without any blanks, or spread over lines with two spaces for each
level. In texts the quote, the backslash and the characters below the space are escaped and
nothing else. A double that is no number is written as `null`.
-/

namespace DesignTokens.Json

/-! ## Texts and numbers -/

/-- A lower-case hex digit. -/
def hexDigit (n : Nat) : Char :=
  Nat.digitChar (n % 16)

/-- A character as it stands between quotes. -/
def escapeChar (c : Char) : List Char :=
  if c = '"' then ['\\', '"']
  else if c = '\\' then ['\\', '\\']
  else if c = '\x08' then ['\\', 'b']
  else if c = '\x0c' then ['\\', 'f']
  else if c = '\n' then ['\\', 'n']
  else if c = '\r' then ['\\', 'r']
  else if c = '\t' then ['\\', 't']
  else if c.toNat < 32 then ['\\', 'u', '0', '0', hexDigit (c.toNat / 16), hexDigit c.toNat]
  else [c]

def quote (s : String) : String :=
  String.ofList ('"' :: (s.toList.flatMap escapeChar ++ ['"']))

/-- A double; an infinity or a non-number is written as `null`. -/
def numberText (x : Binary64) : String :=
  if x.isFinite then NumberStyle.document.text x else "null"

/-- A value that holds no other values. -/
def atomText : Json → String
  | bool b => if b then "true" else "false"
  | integer n => toString n
  | number x => numberText x
  | string s => quote s
  | null | array _ | object _ => "null"

/-! ## Compact text -/

mutual

/-- A value on one line without blanks. -/
def compact : Json → String
  | array items => "[" ++ ",".intercalate (compactItems items) ++ "]"
  | object members => "\x7b" ++ ",".intercalate (compactMembers members) ++ "\x7d"
  | atom => atomText atom

/-- The items of an array, each on its own. -/
def compactItems : List Json → List String
  | [] => []
  | v :: rest => compact v :: compactItems rest

/-- The members of an object, each on its own. -/
def compactMembers : List (String × Json) → List String
  | [] => []
  | (k, v) :: rest => (quote k ++ ":" ++ compact v) :: compactMembers rest

end

/-! ## Indented text -/

/-- Two spaces for each level. -/
def indent (depth : Nat) : String :=
  String.ofList (List.replicate (2 * depth) ' ')

mutual

/-- A value with each item and member on a line of its own; what is empty stays on its line. -/
def spread (depth : Nat) : Json → String
  | array [] => "[]"
  | array (v :: rest) =>
    "[\n" ++ ",\n".intercalate (spreadItems (depth + 1) (v :: rest)) ++ "\n" ++ indent depth ++ "]"
  | object [] => "\x7b\x7d"
  | object (m :: rest) =>
    "\x7b\n" ++ ",\n".intercalate (spreadMembers (depth + 1) (m :: rest))
      ++ "\n" ++ indent depth ++ "\x7d"
  | atom => atomText atom

/-- The items of an array, each with its indentation. -/
def spreadItems (depth : Nat) : List Json → List String
  | [] => []
  | v :: rest => (indent depth ++ spread depth v) :: spreadItems depth rest

/-- The members of an object, each with its indentation. -/
def spreadMembers (depth : Nat) : List (String × Json) → List String
  | [] => []
  | (k, v) :: rest =>
    (indent depth ++ quote k ++ ": " ++ spread depth v) :: spreadMembers depth rest

end

/-- The text of a document: the value spread over lines, and one line feed at the end. -/
def pretty (v : Json) : String :=
  spread 0 v ++ "\n"

end DesignTokens.Json
