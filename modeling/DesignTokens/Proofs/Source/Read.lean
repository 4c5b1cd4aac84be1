import DesignTokens.Proofs.Source.Line

/-!
# Reading the parts of getters

A captured text is trimmed and then read as a color, a number, a duration or an offset. The parts
of getters are written in the plainest way, so each reader gives back what the part stands for.
-/

namespace DesignTokens

/-! ## Trimming -/

namespace Text

theorem dropWhile_isBlank {s t : List Char} (hs : ∀ c ∈ s, isBlank c = true)
    (ht : ∀ c ∈ t, isBlank c = false) : (s ++ t).dropWhile isBlank = t := by
  rw [List.dropWhile_append_of_pos hs]
  cases t with
  | nil => rfl
  | cons c t => rw [List.dropWhile_cons_of_neg (by rw [ht c List.mem_cons_self]; decide)]

-- White space in front of a text without any goes away.
theorem trim_append {s t : List Char} (hs : ∀ c ∈ s, isBlank c = true)
    (ht : ∀ c ∈ t, isBlank c = false) : trim (s ++ t) = t := by
  have hreverse : ∀ c ∈ t.reverse, isBlank c = false := fun c hc => ht c (List.mem_reverse.1 hc)
  have hnil : ∀ c ∈ ([] : List Char), isBlank c = true := fun c hc => absurd hc List.not_mem_nil
  have hback := dropWhile_isBlank hnil hreverse
  rw [List.nil_append] at hback
  rw [trim, dropWhile_isBlank hs ht, hback, List.reverse_reverse]

theorem trim_eq_self {t : List Char} (ht : ∀ c ∈ t, isBlank c = false) : trim t = t :=
  trim_append (fun _ hc => absurd hc List.not_mem_nil) ht

theorem isBlank_of_isWord {c : Char} (h : isWord c = true) : isBlank c = false := by
  rw [← Bool.not_eq_true]
  intro hb
  rw [isWord_of_isBlank hb] at h
  cases h

end Text

theorem MadeOf.not_blank {others t : List Char} (h : MadeOf others t)
    (ho : (others.all fun c => !Text.isBlank c) = true) : ∀ c ∈ t, Text.isBlank c = false := by
  intro c hc
  rcases h c hc with hw | hm
  · exact Text.isBlank_of_isWord hw
  · simpa using List.all_eq_true.1 ho c hm

/-! ## Numbers -/

namespace DecimalLiteral

theorem splitDigits_append {t rest : List Char} (ht : ∀ c ∈ t, Text.isAsciiDigit c = true)
    (hr : Stops Text.isAsciiDigit rest) :
    splitDigits (t ++ rest) = (t, rest) := by
  rw [splitDigits, Pattern.takeWhile_append_stop ht hr, List.dropWhile_append_of_pos ht]
  cases rest with
  | nil => rfl
  | cons c rest => rw [List.dropWhile_cons_of_neg (by rw [hr c rfl]; decide)]

theorem splitSign_of_digit {c : Char} (hc : Text.isAsciiDigit c = true) (s : List Char) :
    splitSign (c :: s) = (false, c :: s) := by
  unfold splitSign
  split
  · rename_i heq
    rw [(List.cons.inj heq).1] at hc
    cases hc
  · rename_i heq
    rw [(List.cons.inj heq).1] at hc
    cases hc
  · rfl

-- A text of digits, a point and digits is read digit by digit.
theorem read_chars (l : Literal) : read l.chars = some ⟨false, l.whole, l.fraction, 0⟩ := by
  have hwhole : ∀ c ∈ l.whole, Text.isAsciiDigit c = true :=
    fun c hc => l.digits c (List.mem_append_left _ hc)
  have hfraction : ∀ c ∈ l.fraction, Text.isAsciiDigit c = true :=
    fun c hc => l.digits c (List.mem_append_right _ hc)
  have hsign : splitSign l.chars = (false, l.chars) := by
    rw [Literal.chars]
    cases hw : l.whole with
    | nil => exact absurd hw l.nonempty
    | cons c t => exact splitSign_of_digit (hwhole c (by rw [hw]; exact List.mem_cons_self)) _
  rw [read, hsign, Literal.chars]
  by_cases hf : l.fraction = []
  · have hdigits : splitDigits (l.whole ++ []) = (l.whole, []) :=
      splitDigits_append hwhole (stops_nil _)
    simp only [if_pos hf, hdigits, and_true]
    rw [if_neg l.nonempty, hf]
    rfl
  · -- the digits in front end at the point
    have hpoint : Stops Text.isAsciiDigit ('.' :: l.fraction) := stops_cons (by decide) _
    have htail : splitDigits (l.fraction ++ []) = (l.fraction, []) :=
      splitDigits_append hfraction (stops_nil _)
    rw [List.append_nil] at htail
    simp only [if_neg hf, splitDigits_append hwhole hpoint, htail]
    rw [if_neg fun h => l.nonempty h.1]
    rfl

end DecimalLiteral

namespace Capture

theorem readNumber_literal (l : Literal) : readNumber l.chars = some l.value := by
  have hplain : MadeOf ['.'] l.chars := l.madeOf List.mem_cons_self
  have hvalue : (⟨false, l.whole, l.fraction, 0⟩ : DecimalLiteral).value = l.value := by
    rw [DecimalLiteral.value, decimalValue_eq, Int.zero_sub]
    rfl
  have hfinite : l.value.isFinite = true := l.finite
  rw [readNumber, Text.trim_eq_self (hplain.not_blank (by decide)), DecimalLiteral.read_chars,
    Option.map_some, hvalue, Option.filter_some, if_pos hfinite]

theorem readSigned_literal (l : SignedLiteral) : readSigned l.chars = some l.value := by
  rw [SignedLiteral.chars, SignedLiteral.value]
  cases l.negative with
  | true =>
    show (readNumber l.magnitude.chars).map (·.neg) = _
    rw [readNumber_literal]
    rfl
  | false =>
    have hminus : '-' ∉ l.magnitude.chars := l.magnitude.not_mem (by decide) (by decide)
    show readSigned l.magnitude.chars = some l.magnitude.value
    rw [← readNumber_literal]
    unfold readSigned
    split
    · rename_i heq
      exact absurd (by rw [heq]; exact List.mem_cons_self) hminus
    · rfl

theorem readMilliseconds_digits (ms : Milliseconds) :
    readMilliseconds ms.digits = some (Nat.ofDigitChars 10 ms.digits 0) := by
  have hplain : MadeOf [] ms.digits :=
    fun c hc => .inl (Text.isWord_of_isAsciiDigit (ms.ascii c hc))
  have hall : ms.digits.all Text.isAsciiDigit = true := List.all_eq_true.2 ms.ascii
  rw [readMilliseconds, Text.trim_eq_self (hplain.not_blank (by decide)), decimalValue_eq]
  rw [if_pos ⟨ms.nonempty, hall⟩, if_pos ms.small]

-- The two numbers of an offset, with a comma and a space between them.
theorem readOffset_pair (x y : SignedLiteral) :
    readOffset (x.chars ++ ", ".toList ++ y.chars) = some ⟨x.value, y.value⟩ := by
  have hplain (l : SignedLiteral) : ∀ c ∈ l.chars, Text.isBlank c = false := by
    have hmade : MadeOf ['.', '-'] l.chars := l.madeOf (by decide) (by decide)
    exact hmade.not_blank (by decide)
  have hcomma (l : SignedLiteral) : ',' ∉ l.chars := l.not_mem (by decide) (by decide) (by decide)
  have hne (l : SignedLiteral) : l.chars.isEmpty = false := by
    rw [List.isEmpty_eq_false_iff, SignedLiteral.chars, Ne, List.append_eq_nil_iff, not_and]
    exact fun _ h => l.magnitude.chars_ne h
  have hsplit : (x.chars ++ ", ".toList ++ y.chars).splitOn ',' = [x.chars, [' '] ++ y.chars] := by
    -- the space stays with the second number until it is trimmed
    have hsecond : ',' ∉ [' '] ++ y.chars := by
      rw [List.mem_append, not_or]
      exact ⟨by decide, hcomma y⟩
    rw [List.append_assoc]
    show (x.chars ++ ',' :: ([' '] ++ y.chars)).splitOn ',' = _
    rw [List.splitOn_append_cons_self_of_not_mem (hcomma x), List.splitOn_eq_singleton hsecond]
  have htrim : Text.trim ([' '] ++ y.chars) = y.chars :=
    Text.trim_append (List.all_eq_true.1 (by decide)) (hplain y)
  rw [readOffset, hsplit, List.map_cons, List.map_cons, List.map_nil,
    Text.trim_eq_self (hplain x), htrim]
  simp only [List.filter_cons, hne, List.filter_nil, Bool.not_false, if_true,
    readSigned_literal]
  rfl

/-! ## Colors -/

theorem readColor_hex (x : HexColor) : readColor x.chars = some x.value := by
  have hall : x.chars.all Text.isHexDigit = true := List.all_eq_true.2 x.hex
  have hsix {t : List Char} (h : t.length = 6) :
      ∃ r₁ r₂ g₁ g₂ b₁ b₂, t = [r₁, r₂, g₁, g₂, b₁, b₂] := by
    rcases t with _ | ⟨r₁, _ | ⟨r₂, _ | ⟨g₁, _ | ⟨g₂, _ | ⟨b₁, _ | ⟨b₂, _ | ⟨c, t⟩⟩⟩⟩⟩⟩⟩
    case cons.cons.cons.cons.cons.cons.nil => exact ⟨r₁, r₂, g₁, g₂, b₁, b₂, rfl⟩
    all_goals
      simp only [List.length_cons, List.length_nil] at h
      omega
  have hrgb : (x.rgb.map upperHex).length = 6 := by rw [List.length_map, x.rgb_length]
  have halpha : (x.alpha.map upperHex).length = 0 ∨ (x.alpha.map upperHex).length = 2 := by
    rw [List.length_map]
    exact x.alpha_length
  rw [readColor, if_pos hall, HexColor.chars, List.map_append, HexColor.value]
  -- six digits behind none or two of alpha
  rcases hsix hrgb with ⟨r₁, r₂, g₁, g₂, b₁, b₂, hrgb⟩
  rw [hrgb]
  rcases halpha with halpha | halpha
  · rw [List.length_eq_zero_iff.1 halpha]
    rfl
  · rcases List.length_eq_two.1 halpha with ⟨a₁, a₂, halpha⟩
    rw [halpha]
    show (if a₁ = 'F' ∧ a₂ = 'F' then _ else _) = _
    by_cases ha : a₁ = 'F' ∧ a₂ = 'F'
    · rw [if_pos ha, ha.1, ha.2]
      rfl
    · have hne : ¬ [a₁, a₂] = ['F', 'F'] := by simpa using ha
      rw [if_neg ha]
      simp only [if_neg hne]
      rfl

end Capture

end DesignTokens
