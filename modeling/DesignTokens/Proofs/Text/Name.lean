import DesignTokens.Text.Blank
import DesignTokens.Text.Digit
import DesignTokens.Text.Word

/-!
# Names

A name has at least one character, and all of its characters are word characters. White space and
punctuation other than connectors are none, so a name can be told from what stands around it.
-/

namespace DesignTokens.Text

theorem CodeRanges.exists_of_has {rs : CodeRanges} {n : Nat} (h : rs.has n = true) :
    ∃ r ∈ rs, r.1 ≤ n ∧ n ≤ r.2 := by
  induction rs with
  | nil => cases h
  | cons r rs ih =>
    rcases r with ⟨lo, hi⟩
    simp only [has] at h
    split at h
    · cases h
    · split at h
      · exact ⟨(lo, hi), List.mem_cons_self, by omega, by omega⟩
      · rcases ih h with ⟨r, hr, hn⟩
        exact ⟨r, List.mem_cons_of_mem _ hr, hn⟩

-- White space is in no set of characters that none of its ranges meets.
theorem CodeRanges.has_of_isBlank {rs : CodeRanges}
    (hall : ∀ r ∈ blankRanges, ∀ k < r.2 + 1 - r.1, rs.has (r.1 + k) = false) {c : Char}
    (h : isBlank c = true) : rs.has c.toNat = false := by
  rcases CodeRanges.exists_of_has h with ⟨r, hr, hlo, hhi⟩
  have hk := hall r hr (c.toNat - r.1) (by omega)
  rw [Nat.add_sub_cancel' hlo] at hk
  exact hk

theorem isWord_of_isBlank {c : Char} (h : isBlank c = true) : isWord c = false :=
  CodeRanges.has_of_isBlank (by decide +kernel) h

theorem isDecimalDigit_of_isBlank {c : Char} (h : isBlank c = true) : isDecimalDigit c = false :=
  CodeRanges.has_of_isBlank (by decide +kernel) h

theorem isWord_of_isAsciiDigit {c : Char} (h : isAsciiDigit c = true) : isWord c = true := by
  simp only [isAsciiDigit, Bool.and_eq_true, decide_eq_true_eq] at h
  exact CodeRanges.has_of_mem_head h.1 h.2

theorem isWord_of_isHexDigit {c : Char} (h : isHexDigit c = true) : isWord c = true := by
  have hall : ∀ n < 103, ((48 ≤ n ∧ n ≤ 57) ∨ 65 ≤ n ∧ n ≤ 70) ∨ 97 ≤ n ∧ n ≤ 102 →
      wordRanges.has n = true := by
    decide +kernel
  simp only [isHexDigit, isAsciiDigit, Bool.or_eq_true, Bool.and_eq_true, decide_eq_true_eq] at h
  exact hall c.toNat (by omega) h

/-- At least one character, and word characters only. -/
structure IsName (s : List Char) : Prop where
  nonempty : s ≠ []
  word : ∀ c ∈ s, isWord c = true

namespace IsName

theorem not_mem {s : List Char} (h : IsName s) {c : Char} (hc : isWord c = false) : c ∉ s := by
  intro hm
  rw [h.word c hm] at hc
  cases hc

theorem not_blank {s : List Char} (h : IsName s) : ∀ c ∈ s, isBlank c = false := by
  intro c hc
  rw [← Bool.not_eq_true]
  intro hb
  exact h.not_mem (isWord_of_isBlank hb) hc

theorem append {s t : List Char} (h : IsName s) (ht : ∀ c ∈ t, isWord c = true) :
    IsName (s ++ t) where
  nonempty := by simp [h.nonempty]
  word c hc := (List.mem_append.1 hc).elim (h.word c) (ht c)

theorem of_append_left {s t : List Char} (h : IsName (s ++ t)) (hs : s ≠ []) : IsName s :=
  ⟨hs, fun c hc => h.word c (List.mem_append_left t hc)⟩

end IsName

end DesignTokens.Text
