/-!
# Sets of characters as sorted ranges

A Unicode property is written as a list of inclusive code point ranges in increasing order. The
look-up walks the list and stops at the first range that begins after the code point, so for
ASCII it ends after a few steps.
-/

namespace DesignTokens.Text

/-- Inclusive ranges of code points, in increasing order and without overlap. -/
abbrev CodeRanges := List (Nat × Nat)

namespace CodeRanges

/-- Whether a code point lies in one of the ranges, which are sorted. -/
def has : CodeRanges → Nat → Bool
  | [], _ => false
  | (lo, hi) :: rest, n => if n < lo then false else if n ≤ hi then true else has rest n

/-- A code point below every range is in none of them. -/
theorem has_of_lt {lo hi : Nat} {rest : CodeRanges} {n : Nat} (h : n < lo) :
    has ((lo, hi) :: rest) n = false := by
  simp [has, h]

/-- A code point inside the first range is found. -/
theorem has_of_mem_head {lo hi : Nat} {rest : CodeRanges} {n : Nat} (h₁ : lo ≤ n) (h₂ : n ≤ hi) :
    has ((lo, hi) :: rest) n = true := by
  simp [has, Nat.not_lt.2 h₁, h₂]

end CodeRanges

end DesignTokens.Text
