import DesignTokens.Pattern.Matcher
import DesignTokens.Pattern.Reach

/-!
# Searching a text

The occurrences of a pattern in a text are found from left to right; the search goes on behind the
end of each, so occurrences do not overlap. An occurrence without any characters is reported unless
the one before it ends at the same place.
-/

namespace DesignTokens

/-- Where a search stands in a text. -/
structure SearchPlace where
  offset : Nat
  bytes : Nat
  /-- Whether the last occurrence ends here. -/
  afterMatch : Bool

namespace SearchPlace

def start : SearchPlace := ⟨0, 0, false⟩

/-- The place behind one more character. -/
def advance (place : SearchPlace) (c : Char) (afterMatch : Bool) : SearchPlace :=
  ⟨place.offset + 1, place.bytes + c.utf8Size, afterMatch⟩

/-- The occurrence that a match at this place amounts to. -/
def occurrence (place : SearchPlace) (m : Reached) : Occurrence :=
  ⟨place.offset, place.bytes, m.width, m.groups.map (·.map Span.text)⟩

end SearchPlace

namespace Pattern

/-! ## The first character -/

/-- Whether the first character of a text leaves it open that a pattern matches at its start. -/
def mayStart : Pattern → List Char → Bool
  | one _, [] => false
  | one k, c :: _ => k.has c
  | seq p _, s | group p, s => p.mayStart s
  | either p q, s => p.mayStart s || q.mayStart s
  | _, _ => true

theorem attempt_eq_none_of_mayStart {α : Type} {p : Pattern} {s : List Char}
    (h : p.mayStart s = false) (next : Reached → Option α) : p.attempt s next = none := by
  induction p generalizing next with
  | empty | run | whole | exactly => simp [mayStart] at h
  | one k =>
    cases s with
    | nil => rfl
    | cons c rest =>
      have hc : k.has c = false := h
      simp [attempt, hc]
  | seq p q ihp _ => exact ihp h _
  | either p q ihp ihq =>
    obtain ⟨hp, hq⟩ := Bool.or_eq_false_iff.1 h
    simp only [attempt, ihp hp, ihq hq]
  | group p ih => exact ih h _

/-- The match of a pattern at the very start of a text. -/
def matchAtStart (p : Pattern) (s : List Char) : Option Reached :=
  if p.mayStart s then p.attempt s some else none

theorem matchAtStart_eq (p : Pattern) (s : List Char) : p.matchAtStart s = p.attempt s some := by
  unfold matchAtStart
  split
  · rfl
  · rename_i h
    exact (attempt_eq_none_of_mayStart (Bool.eq_false_iff.2 h) some).symm

/-! ## All occurrences -/

/-- The occurrences from a place on, in front of those already found, which stand in reverse.
Matches start at one of the next `places` places, and `skip` more characters belong to the last
occurrence. -/
def occurrencesFrom (p : Pattern) :
    Nat → List Char → Nat → SearchPlace → List Occurrence → List Occurrence
  | 0, _, _, _, found => found.reverse
  | _ + 1, [], _, place, found =>
    match p.matchAtStart [] with
    | some m => (if place.afterMatch then found else place.occurrence m :: found).reverse
    | none => found.reverse
  | places + 1, c :: rest, skip + 1, place, found =>
    p.occurrencesFrom places rest skip (place.advance c true) found
  | places + 1, c :: rest, 0, place, found =>
    match p.matchAtStart (c :: rest) with
    | none => p.occurrencesFrom places rest 0 (place.advance c false) found
    | some m =>
      match m.width with
      | 0 => p.occurrencesFrom places rest 0 (place.advance c false)
          (if place.afterMatch then found else place.occurrence m :: found)
      | width + 1 => p.occurrencesFrom places rest width (place.advance c true)
          (place.occurrence m :: found)

/-- All occurrences of a pattern in a text, from left to right. -/
def occurrences (p : Pattern) (s : List Char) : List Occurrence :=
  p.occurrencesFrom (p.reach s) s 0 .start []

theorem occurrencesFrom_eq_reverse (p : Pattern) (places : Nat) (s : List Char)
    (h : ∀ k ≤ s.length, p.matchAtStart (s.drop k) = none) (skip : Nat) (place : SearchPlace)
    (found : List Occurrence) : p.occurrencesFrom places s skip place found = found.reverse := by
  induction s generalizing places skip place with
  | nil =>
    have h₀ : p.matchAtStart [] = none := h 0 (Nat.zero_le _)
    cases places <;> simp [occurrencesFrom, h₀]
  | cons c rest ih =>
    have h₀ : p.matchAtStart (c :: rest) = none := h 0 (Nat.zero_le _)
    have hrest (k : Nat) (hk : k ≤ rest.length) : p.matchAtStart (rest.drop k) = none :=
      h (k + 1) (Nat.succ_le_succ hk)
    cases places with
    | zero => rfl
    | succ places =>
      cases skip with
      | zero => simp only [occurrencesFrom, h₀, ih places hrest]
      | succ skip => simp only [occurrencesFrom, ih places hrest]

theorem occurrencesFrom_eq (p : Pattern) {places : Nat} {s : List Char}
    (h : ∀ k, places ≤ k → k ≤ s.length → p.matchAtStart (s.drop k) = none) (skip : Nat)
    (place : SearchPlace) (found : List Occurrence) :
    p.occurrencesFrom places s skip place found =
      p.occurrencesFrom (s.length + 1) s skip place found := by
  induction s generalizing places skip place found with
  | nil =>
    cases places with
    | zero =>
      have hnone (n : Nat) := p.occurrencesFrom_eq_reverse n [] fun k hk => h k (Nat.zero_le _) hk
      exact (hnone 0 ..).trans (hnone _ ..).symm
    | succ places => rfl
  | cons c rest ih =>
    cases places with
    | zero =>
      have hnone (n : Nat) :=
        p.occurrencesFrom_eq_reverse n (c :: rest) fun k hk => h k (Nat.zero_le _) hk
      exact (hnone 0 ..).trans (hnone _ ..).symm
    | succ places =>
      have hrest (k : Nat) (hp : places ≤ k) (hk : k ≤ rest.length) :
          p.matchAtStart (rest.drop k) = none :=
        h (k + 1) (Nat.succ_le_succ hp) (Nat.succ_le_succ hk)
      cases skip <;> simp only [occurrencesFrom, List.length_cons, ih hrest]

/-- The limit on the places loses no occurrence. -/
theorem occurrences_eq (p : Pattern) (s : List Char) :
    p.occurrences s = p.occurrencesFrom (s.length + 1) s 0 .start [] :=
  p.occurrencesFrom_eq
    (fun _ hp hk => (p.matchAtStart_eq _).trans (p.attempt_drop_eq_none s hp hk some)) 0 .start []

/-- The groups of the first occurrence of a pattern in a text. -/
def firstGroups? (p : Pattern) (s : List Char) : Option (List (Option (List Char))) :=
  (p.occurrences s).head?.map (·.groups)

end Pattern

end DesignTokens
