import DesignTokens.Extract.Capture
import DesignTokens.Number.Layout

/-!
# Unsigned numbers as plain text

A literal without a minus sign stands for a number without one, and the plain text of such a number
is digits, maybe with a point between them. So nothing but digits and points ever goes from the
numbers of a source into a stylesheet.
-/

namespace DesignTokens

/-- Digits, maybe with a point and more digits behind them. -/
inductive UnsignedDecimal : List Char → Prop
  | whole {ds : List Char} (hne : ds ≠ []) (hds : ∀ c ∈ ds, Text.isAsciiDigit c = true) :
      UnsignedDecimal ds
  | fraction {ds es : List Char} (hne : ds ≠ []) (hds : ∀ c ∈ ds, Text.isAsciiDigit c = true)
      (hne' : es ≠ []) (hes : ∀ c ∈ es, Text.isAsciiDigit c = true) :
      UnsignedDecimal (ds ++ '.' :: es)

theorem UnsignedDecimal.digit_or_point {t : List Char} (h : UnsignedDecimal t) :
    ∀ c ∈ t, Text.isAsciiDigit c = true ∨ c = '.' := by
  intro c hc
  cases h with
  | whole _ hds => exact .inl (hds c hc)
  | fraction _ hds _ hes =>
    rcases List.mem_append.1 hc with hc | hc
    · exact .inl (hds c hc)
    · rcases List.mem_cons.1 hc with rfl | hc
      · exact .inr rfl
      · exact .inl (hes c hc)

/-! ## Printing -/

theorem isAsciiDigit_of_mem_toDigits {n : Nat} {c : Char} (h : c ∈ Nat.toDigits 10 n) :
    Text.isAsciiDigit c = true := by
  have hd := Nat.isDigit_of_mem_toDigits (by decide) (by decide) h
  simp only [Char.isDigit, Bool.and_eq_true, decide_eq_true_eq] at hd
  simp only [Text.isAsciiDigit, Bool.and_eq_true, decide_eq_true_eq]
  exact ⟨hd.1, hd.2⟩

theorem isAsciiDigit_of_mem_zeros {n : Nat} {c : Char} (h : c ∈ List.replicate n '0') :
    Text.isAsciiDigit c = true := by
  rw [(List.mem_replicate.1 h).2]
  rfl

theorem unsignedDecimal_positionalText {digits : List Char} (hne : digits ≠ [])
    (hd : ∀ c ∈ digits, Text.isAsciiDigit c = true) (point : Int) :
    UnsignedDecimal (positionalText false digits point) := by
  unfold positionalText
  split
  · refine .whole (by simp [hne]) ?_
    intro c hc
    simp only [Bool.false_eq_true, if_false, List.append_nil, List.mem_append] at hc
    rcases hc with hc | hc
    · exact hd c hc
    · exact isAsciiDigit_of_mem_zeros hc
  · rename_i hlen
    split
    · rename_i hpos
      refine .fraction ?_ (fun c hc => hd c (List.mem_of_mem_take hc)) ?_
        fun c hc => hd c (List.mem_of_mem_drop hc)
      · rw [Ne, List.take_eq_nil_iff, not_or]
        exact ⟨by omega, hne⟩
      · rw [Ne, List.drop_eq_nil_iff]
        omega
    · show UnsignedDecimal (['0'] ++ '.' :: _)
      refine .fraction (by simp) ?_ (by simp [hne]) ?_
      · intro c hc
        rw [List.mem_singleton.1 hc]
        rfl
      · intro c hc
        rcases List.mem_append.1 hc with hc | hc
        · exact isAsciiDigit_of_mem_zeros hc
        · exact hd c hc

/-- **The plain text of a finite number without a sign is an unsigned decimal.** -/
theorem unsignedDecimal_text {x : Binary64} (hn : x.negative = false) (hf : x.isFinite = true) :
    UnsignedDecimal (NumberStyle.plain.text x).toList := by
  have hnan : x.isNaN = false := by
    simp only [Binary64.isFinite, decide_eq_true_eq] at hf
    simp only [Binary64.isNaN, decide_eq_false_iff_not]
    omega
  have htext : (NumberStyle.plain.text x).toList = NumberStyle.plain.magnitudeText x := by
    simp only [NumberStyle.text, hnan, hn, hf, if_true, Bool.false_eq_true, if_false,
      String.toList_ofList, List.nil_append]
  rw [htext, NumberStyle.magnitudeText]
  split
  · refine .whole (by simp [NumberStyle.plain]) ?_
    intro c hc
    rw [List.mem_singleton.1 hc]
    rfl
  · exact unsignedDecimal_positionalText Nat.toDigits_ne_nil
      (fun c hc => isAsciiDigit_of_mem_toDigits hc) _

/-! ## Reading -/

namespace DecimalLiteral

theorem splitSign_of_unsigned {s : List Char} (h : '-' ∉ s) : (splitSign s).1 = false := by
  unfold splitSign
  split
  · exact absurd List.mem_cons_self h
  · rfl
  · rfl

theorem negative_of_read {s : List Char} {l : DecimalLiteral} (h : '-' ∉ s)
    (hl : read s = some l) : l.negative = false := by
  have hs := splitSign_of_unsigned h
  simp only [read] at hl
  -- with a point and without one, the sign has been read before
  split at hl <;> split at hl
  any_goals cases hl
  all_goals
    rcases Option.map_eq_some_iff.1 hl with ⟨exponent, -, rfl⟩
    exact hs

end DecimalLiteral

theorem Text.mem_of_mem_trim {s : List Char} {c : Char} (h : c ∈ trim s) : c ∈ s := by
  have h := List.dropWhile_subset _ (List.mem_reverse.1 h)
  exact List.dropWhile_subset _ (List.mem_reverse.1 h)

theorem Capture.isFinite_of_readNumber {raw : List Char} {x : Binary64}
    (h : readNumber raw = some x) : x.isFinite = true :=
  (Option.filter_eq_some_iff.1 h).2

-- A number that is read from a text without a minus sign is not negative.
theorem Capture.negative_of_readNumber {raw : List Char} {x : Binary64} (hraw : '-' ∉ raw)
    (h : readNumber raw = some x) : x.negative = false := by
  rcases Option.map_eq_some_iff.1 (Option.filter_eq_some_iff.1 h).1 with ⟨l, hl, rfl⟩
  exact DecimalLiteral.negative_of_read (fun hm => hraw (Text.mem_of_mem_trim hm)) hl

end DesignTokens
