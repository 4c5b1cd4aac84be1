import DesignTokens.Pattern.Search

/-!
# Written patterns

Patterns are written in the usual notation: a character stands for itself; `\w`, `\d` and `\s` for
word characters, decimal digits and white space; a backslash before a sign for the sign;
`[...]` and `[^...]` for a class; `(...)` for a group that captures and `(?:...)` for one that does
not; `|` for a choice. A `+`, `*` or `{n}` repeats a single class, and `?` makes anything optional.
A text that is not of this form is no pattern.
-/

namespace DesignTokens.Pattern

/-- The class that a backslash and a letter or sign stand for. -/
def escaped (c : Char) : Option CharRange :=
  if c = 'w' then some .word
  else if c = 'd' then some .digit
  else if c = 's' then some .blank
  else if c.isAlphanum then none
  else some (.between c c)

/-- The members of a bracketed class up to its end, and the text behind it. -/
def readMembers : Nat → List Char → List CharRange → Option (List CharRange × List Char)
  | 0, _, _ => none
  | _ + 1, ']' :: rest, members =>
    if members = [] then none else some (members.reverse, rest)
  | fuel + 1, '\\' :: c :: rest, members =>
    (escaped c).bind fun r => readMembers fuel rest (r :: members)
  | fuel + 1, lo :: '-' :: hi :: rest, members =>
    if hi = ']' then readMembers fuel ('-' :: hi :: rest) (.between lo lo :: members)
    else if lo.toNat ≤ hi.toNat then readMembers fuel rest (.between lo hi :: members)
    else none
  | fuel + 1, c :: rest, members => readMembers fuel rest (.between c c :: members)
  | _ + 1, [], _ => none

/-- One class at the start of a text, and the text behind it. -/
def readClass : List Char → Option (CharClass × List Char)
  | '\\' :: c :: rest => (escaped c).map fun r => (.of r, rest)
  | '[' :: '^' :: rest =>
    (readMembers (rest.length + 1) rest []).map fun (members, rest) => (⟨true, members⟩, rest)
  | '[' :: rest =>
    (readMembers (rest.length + 1) rest []).map fun (members, rest) => (⟨false, members⟩, rest)
  | c :: rest =>
    if c ∈ ['\\', '.', '^', '$', '*', '+', '?', '{', '}', ']'] then none
    else some (.only c, rest)
  | [] => none

/-- What a mark of repetition behind a class makes of it, and the text behind the mark. -/
def repeatClass (k : CharClass) : List Char → Option (Pattern × List Char)
  | '+' :: rest => some (run k 1, rest)
  | '*' :: rest => some (run k 0, rest)
  | '?' :: rest => some (either (one k) empty, rest)
  | '{' :: rest =>
    let digits := rest.takeWhile Text.isAsciiDigit
    match digits, rest.dropWhile Text.isAsciiDigit with
    | _ :: _, '}' :: behind => some (exactly k (Nat.ofDigitChars 10 digits 0), behind)
    | _, _ => none
  | rest => some (one k, rest)

/-- What a mark behind a closed group makes of it, and the text behind the mark. -/
def repeatGroup (p : Pattern) : List Char → Option (Pattern × List Char)
  | '?' :: rest => some (either p empty, rest)
  | c :: rest => if c ∈ ['+', '*', '{'] then none else some (p, c :: rest)
  | [] => some (p, [])

/-- A group that is still open: whether it captures, the branches before the current one and the
items of the current one, both in reverse. -/
structure OpenGroup where
  captures : Bool
  branches : List Pattern
  items : List Pattern

namespace OpenGroup

/-- A group with nothing in it yet. -/
def fresh (captures : Bool) : OpenGroup := ⟨captures, [], []⟩

/-- One more item in the current branch. -/
def push (g : OpenGroup) (p : Pattern) : OpenGroup := { g with items := p :: g.items }

/-- Ends the current branch and starts another one. -/
def branch (g : OpenGroup) : OpenGroup :=
  { g with branches := seqs g.items.reverse :: g.branches, items := [] }

/-- The pattern of the branches, the first one tried first. -/
def content (g : OpenGroup) : Pattern :=
  g.branches.foldl (fun later earlier => either earlier later) (seqs g.items.reverse)

def close (g : OpenGroup) : Pattern :=
  if g.captures then group g.content else g.content

end OpenGroup

/-- Reads a text from a place inside the group `current`, with the groups around it in `outer`. -/
def readFrom : Nat → List Char → OpenGroup → List OpenGroup → Option Pattern
  | _, [], current, [] => some current.content
  | _, [], _, _ :: _ => none
  | 0, _, _, _ => none
  | fuel + 1, '(' :: '?' :: ':' :: rest, current, outer =>
    readFrom fuel rest (.fresh false) (current :: outer)
  | fuel + 1, '(' :: rest, current, outer => readFrom fuel rest (.fresh true) (current :: outer)
  | fuel + 1, ')' :: rest, current, parent :: outer =>
    (repeatGroup current.close rest).bind fun (p, rest) => readFrom fuel rest (parent.push p) outer
  | _ + 1, ')' :: _, _, [] => none
  | fuel + 1, '|' :: rest, current, outer => readFrom fuel rest current.branch outer
  | fuel + 1, text, current, outer =>
    (readClass text).bind fun (k, rest) =>
      (repeatClass k rest).bind fun (p, rest) => readFrom fuel rest (current.push p) outer

/-- The pattern that a text stands for, settled. -/
def read (s : String) : Option Pattern :=
  (readFrom s.toList.length s.toList (.fresh false) []).map fun p => p.settle none

instance : Matcher Pattern where
  read := read
  groupCount := groupCount
  occurrences := occurrences

end DesignTokens.Pattern
