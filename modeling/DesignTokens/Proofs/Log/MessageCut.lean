import DesignTokens.Log.Event
import Mathlib.Data.String.Basic

/-!
# Messages that are too long

A message of at most ten thousand bytes is kept whole. Of a longer one the longest start is kept
that has whole characters and at most so many bytes, and three dots stand behind it. No character
has more than four bytes, so the search for the end of that start goes back three bytes at most: it
ends far from the start of the message, and at a place where the message can be cut.
-/

namespace DesignTokens

/-- The longest start of a text that has whole characters and at most a number of bytes. -/
structure LongestStart (limit : Nat) (text kept : String) : Prop where
  starts : ∃ rest, text = kept ++ rest
  fits : kept.utf8ByteSize ≤ limit
  longest : ∀ start rest, text = start ++ rest → start.utf8ByteSize ≤ limit →
    ∃ more, kept = start ++ more

/-! ## Starts and boundaries -/

theorem isValid_append_start (start rest : String) :
    String.Pos.Raw.IsValid (start ++ rest) ⟨start.utf8ByteSize⟩ :=
  String.Pos.Raw.isValid_iff_exists_append.2 ⟨start, rest, rfl, rfl⟩

theorem extract_append_start (start rest : String) :
    String.Pos.Raw.extract (start ++ rest) 0 ⟨start.utf8ByteSize⟩ = start := by
  have h := String.extract_of_valid [] start.toList rest.toList
  rw [List.nil_append, String.ofList_append, String.utf8Len_nil, Nat.zero_add,
    ← String.utf8ByteSize_ofList, String.ofList_toList, String.ofList_toList] at h
  exact h

/-- Of two starts of a text the one with no more bytes is a start of the other. -/
theorem exists_more {kept rest start rest' : String} (h : kept ++ rest = start ++ rest')
    (hle : start.utf8ByteSize ≤ kept.utf8ByteSize) : ∃ more, kept = start ++ more := by
  have hchars : start.toList ++ rest'.toList = kept.toList ++ rest.toList := by
    rw [← String.toList_append, ← String.toList_append, h]
  rcases List.append_eq_append_iff.1 hchars with ⟨more, hkept, -⟩ | ⟨more, hstart, -⟩
  · refine ⟨String.ofList more, String.toList_inj.1 ?_⟩
    rw [String.toList_append, String.toList_ofList, hkept]
  · -- nothing is left of the start behind what is kept
    have hlonger : start = kept ++ String.ofList more := by
      refine String.toList_inj.1 ?_
      rw [String.toList_append, String.toList_ofList, hstart]
    rw [hlonger, String.utf8ByteSize_append] at hle
    have hempty : String.ofList more = "" := String.utf8ByteSize_eq_zero_iff.1 (by omega)
    exact ⟨"", by rw [hlonger, hempty, String.append_empty, String.append_empty]⟩

section Boundary

variable {text kept rest : String} {n : Nat}

theorem exists_lastBoundary_eq (text : String) (n : Nat) :
    ∃ kept rest, text = kept ++ rest ∧ lastBoundary text n = kept.utf8ByteSize := by
  obtain ⟨kept, rest, htext, hend⟩ :=
    String.Pos.Raw.isValid_iff_exists_append.1 (isValid_lastBoundary text n)
  exact ⟨kept, rest, htext, congrArg String.Pos.Raw.byteIdx hend⟩

/-- What stands in front of the boundary that is found is the longest start that fits. -/
theorem longestStart_of_lastBoundary (htext : text = kept ++ rest)
    (hkept : lastBoundary text n = kept.utf8ByteSize) : LongestStart n text kept where
  starts := ⟨rest, htext⟩
  fits := hkept ▸ lastBoundary_le text n
  longest start rest' hstart hfits := by
    have hvalid : String.Pos.Raw.IsValid text ⟨start.utf8ByteSize⟩ :=
      hstart ▸ isValid_append_start start rest'
    exact exists_more (htext.symm.trans hstart) (hkept ▸ le_lastBoundary hvalid hfits)

/-- The search goes back three bytes at most: the next character would fit otherwise. -/
theorem lt_lastBoundary_add_four (h : n < text.utf8ByteSize) : n < lastBoundary text n + 4 := by
  obtain ⟨kept, rest, rfl, hkept⟩ := exists_lastBoundary_eq text n
  have hfits := lastBoundary_le (kept ++ rest) n
  rw [String.utf8ByteSize_append] at h
  obtain ⟨c, more, hrest⟩ : ∃ c more, rest.toList = c :: more := by
    refine List.exists_cons_of_ne_nil fun hnil => ?_
    have hempty : rest = "" := String.toList_inj.1 hnil
    rw [hempty, String.utf8ByteSize_empty] at h
    omega
  have hnext : kept ++ rest = (kept ++ String.singleton c) ++ String.ofList more := by
    refine String.toList_inj.1 ?_
    simp only [String.toList_append, String.toList_singleton, String.toList_ofList, hrest,
      List.append_assoc, List.singleton_append]
  have hvalid := isValid_append_start (kept ++ String.singleton c) (String.ofList more)
  rw [← hnext, String.utf8ByteSize_append, String.utf8ByteSize_singleton] at hvalid
  have hpos := Char.utf8Size_pos c
  have hfour := Char.utf8Size_le_four c
  by_contra hfar
  have hnear := le_lastBoundary hvalid (n := n) (by omega)
  omega

end Boundary

/-! ## Messages -/

theorem truncateMessage_of_le {message : String} (h : message.utf8ByteSize ≤ messageLimit) :
    truncateMessage message = message :=
  if_pos h

theorem truncateMessage_of_lt {message kept rest : String}
    (h : messageLimit < message.utf8ByteSize) (hmessage : message = kept ++ rest)
    (hkept : lastBoundary message messageLimit = kept.utf8ByteSize) :
    truncateMessage message = kept ++ "..." := by
  rw [truncateMessage, if_neg (Nat.not_le.2 h), hkept, hmessage, extract_append_start]

/-- **A message is kept whole, or as its longest start that fits and three dots.** The search for
the end of that start ends long before the start of the message, and between two characters. -/
theorem LogEvent.message_plain (level : LogLevel) (code : LogCode) (message : String) :
    let shown := (plain level code message).message
    let stop := lastBoundary message 10000
    (message.utf8ByteSize ≤ 10000 ∧ shown = message ∨
      10000 < message.utf8ByteSize ∧ 0 < stop ∧ String.Pos.Raw.IsValid message ⟨stop⟩ ∧
        ∃ kept, shown = kept ++ "..." ∧ LongestStart 10000 message kept ∧
          kept.utf8ByteSize = stop ∧ 9997 ≤ kept.utf8ByteSize) ∧
      shown.utf8ByteSize ≤ 10003 := by
  intro shown stop
  rcases Nat.lt_or_ge 10000 message.utf8ByteSize with hlong | hshort
  · obtain ⟨kept, rest, hmessage, hkept⟩ := exists_lastBoundary_eq message 10000
    have hshown : shown = kept ++ "..." := truncateMessage_of_lt hlong hmessage hkept
    have hlongest := longestStart_of_lastBoundary hmessage hkept
    have hback := lt_lastBoundary_add_four hlong
    have hsize : shown.utf8ByteSize = kept.utf8ByteSize + 3 := by
      rw [hshown, String.utf8ByteSize_append]
      rfl
    have hfits := hlongest.fits
    exact ⟨.inr ⟨hlong, by omega, isValid_lastBoundary message 10000, kept, hshown, hlongest,
      hkept.symm, by omega⟩, by omega⟩
  · have hshown : shown = message := truncateMessage_of_le hshort
    exact ⟨.inl ⟨hshort, hshown⟩, by rw [hshown]; omega⟩

end DesignTokens
