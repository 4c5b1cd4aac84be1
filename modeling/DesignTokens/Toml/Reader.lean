import DesignTokens.Json.Reader
import DesignTokens.Toml.Scalar

/-!
# Reading TOML

A reader for whole documents, which says only whether a text is a document and what its keys stand
for. At most two steps are made for a character, so twice the length of the text bounds the reading;
each part of it gets what is left of that bound. Brackets, and keys with dots, go only so deep.
-/

namespace DesignTokens.Toml

/-! ## Blanks, comments and line ends -/

/-- A text without the spaces and tabs at its start. -/
def skipBlanks (s : List Char) : List Char :=
  s.dropWhile fun c => c = ' ' ∨ c = '\t'

/-- Whether a character may stand in a comment or in a text as it is. Of the controls only the tab
may. -/
def isPrintable (c : Char) : Bool :=
  c = '\t' || (32 ≤ c.toNat && c.toNat ≠ 127)

/-- A comment, if there is one, is dropped. -/
def skipComment : List Char → List Char
  | '#' :: rest => rest.dropWhile isPrintable
  | s => s

/-- A line end is dropped. -/
def dropNewline : List Char → Option (List Char)
  | '\n' :: rest => some rest
  | '\r' :: '\n' :: rest => some rest
  | _ => none

/-- What follows a line's last blanks and its comment: the next line, or the end of the text. -/
def endLine (s : List Char) : Option (List Char) :=
  match skipComment (skipBlanks s) with
  | [] => some []
  | s => dropNewline s

/-- A text without the blanks, comments and line ends at its start. -/
def skipLines : Nat → List Char → List Char
  | 0, s => s
  | fuel + 1, s =>
    let s := skipComment (skipBlanks s)
    match dropNewline s with
    | some rest => skipLines fuel rest
    | none => s

/-! ## Texts in quotes -/

/-- The character that some hex digits stand for. -/
def readCodePoint (width : Nat) (s : List Char) : Option (Char × List Char) :=
  let digits := s.take width
  if digits.length = width ∧ digits.all Text.isHexDigit then
    let n := digits.foldl (fun n c => n * 16 + digitValue c) 0
    if h : n.isValidChar then some (Char.ofNatAux n h, s.drop width) else none
  else none

/-- The character of an escape behind its backslash, and the text behind it. -/
def readEscape : List Char → Option (Char × List Char)
  | 'b' :: rest => some ('\x08', rest)
  | 't' :: rest => some ('\t', rest)
  | 'n' :: rest => some ('\n', rest)
  | 'f' :: rest => some ('\x0c', rest)
  | 'r' :: rest => some ('\r', rest)
  | '"' :: rest => some ('"', rest)
  | '\\' :: rest => some ('\\', rest)
  | 'u' :: rest => readCodePoint 4 rest
  | 'U' :: rest => readCodePoint 8 rest
  | _ => none

/-- The rest of a text between quotes of a kind on one line; only between double ones are there
escapes. -/
def readOneLine (mark : Char) : Nat → List Char → List Char → Option (String × List Char)
  | 0, _, _ => none
  | _ + 1, [], _ => none
  | fuel + 1, c :: rest, done =>
    if c = mark then some (String.ofList done.reverse, rest)
    else if c = '\\' ∧ mark = '"' then
      match readEscape rest with
      | some (c, rest) => readOneLine mark fuel rest (c :: done)
      | none => none
    else if isPrintable c then readOneLine mark fuel rest (c :: done)
    else none

/-- What stands behind a backslash at the end of a line: all blanks and line ends are dropped. -/
def skipFold : Nat → List Char → List Char
  | 0, s => s
  | fuel + 1, s =>
    let s := skipBlanks s
    match dropNewline s with
    | some rest => skipFold fuel rest
    | none => s

/-- The rest of a text between three quotes of a kind. One or two quotes may stand before the
closing ones. A line end is a line feed, however it is written. -/
def readManyLines (mark : Char) : Nat → List Char → List Char → Option (String × List Char)
  | 0, _, _ => none
  | _ + 1, [], _ => none
  | fuel + 1, c :: rest, done =>
    let quotes := (c :: rest).takeWhile (· = mark)
    if 3 ≤ quotes.length then
      if quotes.length ≤ 5 then
        let extra := List.replicate (quotes.length - 3) mark
        some (String.ofList (done.reverse ++ extra), (c :: rest).drop quotes.length)
      else none
    else if c = '\\' ∧ mark = '"' then
      match dropNewline (skipBlanks rest) with
      | some rest => readManyLines mark fuel (skipFold fuel rest) done
      | none =>
        match readEscape rest with
        | some (c, rest) => readManyLines mark fuel rest (c :: done)
        | none => none
    else match dropNewline (c :: rest) with
      | some rest => readManyLines mark fuel rest ('\n' :: done)
      | none => if isPrintable c then readManyLines mark fuel rest (c :: done) else none

/-- A text between quotes of any kind, and what stands behind it. -/
def readText (fuel : Nat) (s : List Char) : Option (String × List Char) :=
  match s with
  | '"' :: '"' :: '"' :: rest => readManyLines '"' fuel ((dropNewline rest).getD rest) []
  | '\'' :: '\'' :: '\'' :: rest => readManyLines '\'' fuel ((dropNewline rest).getD rest) []
  | '"' :: rest => readOneLine '"' fuel rest []
  | '\'' :: rest => readOneLine '\'' fuel rest []
  | _ => none

/-! ## Keys -/

/-- Whether a character may stand in a key without quotes. -/
def isKeyChar (c : Char) : Bool :=
  c.isAlphanum || c == '_' || c == '-'

/-- One part of a key, and what stands behind it. -/
def readKeyPart (fuel : Nat) : List Char → Option (String × List Char)
  | '"' :: rest => readOneLine '"' fuel rest []
  | '\'' :: rest => readOneLine '\'' fuel rest []
  | s =>
    let bare := s.takeWhile isKeyChar
    if bare = [] then none else some (String.ofList bare, s.dropWhile isKeyChar)

/-- The greatest number of parts of a key, and of brackets around a value. -/
def depthLimit : Nat := 79

/-- The parts of a dotted key from one on, of which there may be only so many, and what stands
behind them and their blanks: the parts before the last one, and the last. -/
def readParts (fuel : Nat) :
    Nat → List Char → List String → Option (List String × String × List Char)
  | 0, _, _ => none
  | room + 1, s, before =>
    match readKeyPart fuel (skipBlanks s) with
    | none => none
    | some (part, rest) =>
      match skipBlanks rest with
      | '.' :: rest => readParts fuel room rest (before ++ [part])
      | rest => some (before, part, rest)

/-- The parts of a dotted key, and what stands behind it. -/
def readKey (fuel : Nat) (s : List Char) : Option (List String × String × List Char) :=
  readParts fuel depthLimit s []

/-! ## Values -/

/-- A word or two that make a value, and what stands behind them. A date may be followed by a blank
and a time of day. -/
def readBare (s : List Char) : Option (Item × List Char) :=
  let word := s.takeWhile isWordChar
  let rest := s.dropWhile isWordChar
  let longer := match rest with
    | ' ' :: behind => word ++ ' ' :: behind.takeWhile isWordChar
    | _ => []
  if isTime longer then some (.time, rest.drop (longer.length - word.length))
  else (readWord word).map (·, rest)

mutual

/-- A value at the start of a text, in which brackets may go so deep, and what stands behind
it. -/
def readValue : Nat → Nat → List Char → Option (Item × List Char)
  | 0, _, _ => none
  | fuel + 1, room, s =>
    match s, room with
    | [], _ => none
    | '"' :: _, _ | '\'' :: _, _ => (readText fuel s).map fun (t, rest) => (.string t, rest)
    | '[' :: _, 0 | '\x7b' :: _, 0 => none
    | '[' :: rest, room + 1 => readArray fuel room rest []
    | '\x7b' :: rest, room + 1 =>
      match skipBlanks rest with
      | '\x7d' :: rest => some (.inline [], rest)
      | rest => readInline fuel room rest []
    | _, _ => readBare s

/-- The rest of an array, behind the items already read in reverse. -/
def readArray : Nat → Nat → List Char → List Item → Option (Item × List Char)
  | 0, _, _, _ => none
  | fuel + 1, room, s, done =>
    match skipLines fuel s with
    | ']' :: rest => some (.array done.reverse, rest)
    | s =>
      match readValue fuel room s with
      | none => none
      | some (item, rest) =>
        match skipLines fuel rest with
        | ',' :: rest => readArray fuel room rest (item :: done)
        | ']' :: rest => some (.array (item :: done).reverse, rest)
        | _ => none

/-- The rest of a table in braces, from an entry on. -/
def readInline : Nat → Nat → List Char → Entries → Option (Item × List Char)
  | 0, _, _, _ => none
  | fuel + 1, room, s, entries =>
    match readKey (fuel + 1) s with
    | some (path, key, '=' :: rest) =>
      match readValue fuel room (skipBlanks rest) with
      | none => none
      | some (item, rest) =>
        match addEntry path key item entries with
        | none => none
        | some entries =>
          match skipBlanks rest with
          | ',' :: rest => readInline fuel room rest entries
          | '\x7d' :: rest => some (.inline entries, rest)
          | _ => none
    | _ => none

end

/-! ## Documents -/

/-- Reads lines below a header. -/
def readLines : Nat → List Char → List String → Entries → Option Entries
  | 0, _, _, _ => none
  | fuel + 1, s, header, entries =>
    match skipBlanks s with
    | [] => some entries
    | '[' :: '[' :: rest =>
      match readKey fuel rest with
      | some (path, key, ']' :: ']' :: rest) =>
        match endLine rest, openTables path key entries with
        | some rest, some entries => readLines fuel rest (path ++ [key]) entries
        | _, _ => none
      | _ => none
    | '[' :: rest =>
      match readKey fuel rest with
      | some (path, key, ']' :: rest) =>
        match endLine rest, openTable path key entries with
        | some rest, some entries => readLines fuel rest (path ++ [key]) entries
        | _, _ => none
      | _ => none
    | s =>
      match endLine s with
      | some rest => readLines fuel rest header entries
      | none =>
        match readKey fuel s with
        | some (path, key, '=' :: rest) =>
          match readValue fuel depthLimit (skipBlanks rest) with
          | none => none
          | some (item, rest) =>
            match endLine rest, addBelow header path key item entries with
            | some rest, some entries => readLines fuel rest header entries
            | _, _ => none
        | _ => none

/-- The entries of a whole document. A byte order mark at its start does not count. -/
def read (text : String) : Option Entries :=
  let s := match text.toList with
    | '\uFEFF' :: rest => rest
    | s => s
  readLines (2 * s.length + 2) s [] []

end DesignTokens.Toml
