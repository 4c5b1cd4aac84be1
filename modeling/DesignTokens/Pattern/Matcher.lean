/-!
# Matchers

A matcher reads patterns of some kind and finds their matches in a text. Whatever is done with
matches rests on a few laws: they stand inside the text, from left to right and without
overlapping, they tell how many bytes are in front of them, and they have a text or none for each
group of their pattern.
-/

namespace DesignTokens

/-- One place where a pattern matches. -/
structure Occurrence where
  /-- The number of characters before it. -/
  offset : Nat
  /-- The number of bytes before it. -/
  bytes : Nat
  /-- The number of its characters. -/
  width : Nat
  /-- The texts of its groups; a group that took no part has none. -/
  groups : List (Option (List Char))
deriving DecidableEq, Repr

/-- The number of bytes of a text in front of a match. -/
def Occurrence.byteOffset (source : List Char) (o : Occurrence) : Nat :=
  (String.ofList (source.take o.offset)).utf8ByteSize

/-- Patterns of some kind, as they are read and searched for. -/
class Matcher (P : Type) where
  /-- The pattern that a text writes, if it is well formed. -/
  read : String → Option P
  /-- The number of capturing groups. -/
  groupCount : P → Nat
  /-- All matches in a text, from left to right. -/
  occurrences : P → List Char → List Occurrence

/-- The laws of a search that goes on behind the end of each match. -/
class LawfulMatcher (P : Type) [Matcher P] : Prop where
  /-- Matches stand in source order and do not overlap. -/
  ordered (p : P) (s : List Char) : (Matcher.occurrences p s).Pairwise fun a b =>
    a.offset < b.offset ∧ a.offset + a.width ≤ b.offset
  inside {p : P} {s : List Char} {o : Occurrence} (h : o ∈ Matcher.occurrences p s) :
    o.offset + o.width ≤ s.length
  /-- The first byte of a match is where its first character is. -/
  bytes {p : P} {s : List Char} {o : Occurrence} (h : o ∈ Matcher.occurrences p s) :
    o.bytes = o.byteOffset s
  groups {p : P} {s : List Char} {o : Occurrence} (h : o ∈ Matcher.occurrences p s) :
    o.groups.length = Matcher.groupCount p

end DesignTokens
