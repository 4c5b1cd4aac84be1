import DesignTokens.Proofs.Extract.Fold
import DesignTokens.Proofs.Json.RoundTrip
import DesignTokens.Proofs.Number.Written

/-!
# Offsets as written

An offset should be two coordinates with one comma between them. Each such text is read as what it
says, but it is not alone: commas too many are passed over, and what is read behind the sign of a
coordinate is a number with blanks and a sign of its own. So `--4` is read as four. An offset that
is refused is all that a shadow loses, and there is one warning about it.
-/

namespace DesignTokens

/-! ## Blanks around a text -/

namespace Text

/-- A text with blanks around it. -/
def Padded (t s : List Char) : Prop :=
  ∃ before after, s = before ++ (t ++ after) ∧ (∀ c ∈ before, isBlank c = true) ∧
    ∀ c ∈ after, isBlank c = true

theorem padded_self (s : List Char) : Padded s s :=
  ⟨[], [], (List.append_nil s).symm, List.forall_mem_nil _, List.forall_mem_nil _⟩

theorem padded_trim (s : List Char) : Padded (trim s) s := by
  refine ⟨s.takeWhile isBlank, ((s.dropWhile isBlank).reverse.takeWhile isBlank).reverse, ?_,
    List.all_eq_true.1 List.all_takeWhile, fun c hc => ?_⟩
  · rw [trim, ← List.reverse_append, List.takeWhile_append_dropWhile, List.reverse_reverse,
      List.takeWhile_append_dropWhile]
  · exact List.all_eq_true.1 List.all_takeWhile c (List.mem_reverse.1 hc)

theorem trim_of_padded {t s : List Char} (h : Padded t s) (ht : ∀ c ∈ t, isBlank c = false) :
    trim s = t := by
  obtain ⟨before, after, rfl, hbefore, hafter⟩ := h
  have hreverse : (t ++ after).reverse.dropWhile isBlank = t.reverse := by
    rw [List.reverse_append]
    exact dropWhile_isBlank (fun c hc => hafter c (List.mem_reverse.1 hc))
      fun c hc => ht c (List.mem_reverse.1 hc)
  rw [trim, List.dropWhile_append_of_pos hbefore]
  cases t with
  | nil =>
    -- all of it is blank
    rw [List.nil_append, ← List.append_nil after, List.dropWhile_append_of_pos hafter]
    rfl
  | cons c t =>
    rw [List.cons_append, List.dropWhile_cons_of_neg (by rw [ht c List.mem_cons_self]; decide),
      ← List.cons_append, hreverse, List.reverse_reverse]

theorem Padded.pad {t s s' : List Char} (h : Padded t s) (h' : Padded s s') : Padded t s' := by
  obtain ⟨before, after, rfl, hbefore, hafter⟩ := h
  obtain ⟨before', after', rfl, hbefore', hafter'⟩ := h'
  refine ⟨before' ++ before, after ++ after', by simp only [List.append_assoc], ?_, ?_⟩
  · exact List.forall_mem_append.2 ⟨hbefore', hbefore⟩
  · exact List.forall_mem_append.2 ⟨hafter, hafter'⟩

end Text

/-! ## Numbers -/

theorem Json.not_blank_of_isNumberChar {c : Char} (h : isNumberChar c = true) :
    Text.isBlank c = false ∧ c ≠ ',' := by
  simp only [isNumberChar, Bool.or_eq_true, beq_iff_eq] at h
  rcases h with ((((h | rfl) | rfl) | rfl) | rfl) | rfl
  · refine ⟨Text.isBlank_of_isWord (Text.isWord_of_isAsciiDigit h), ?_⟩
    rintro rfl
    exact absurd h (by decide)
  all_goals decide

namespace UnsignedLiteral

variable (u : UnsignedLiteral)

theorem not_blank (sign : LiteralSign) :
    ∀ c ∈ sign.chars ++ u.chars, Text.isBlank c = false ∧ c ≠ ',' := fun c hc =>
  Json.not_blank_of_isNumberChar
    (Json.isNumberChar_of_read (DecimalLiteral.read_unsigned sign u) c hc)

end UnsignedLiteral

namespace Capture

theorem readNumber_eq_some_iff {s : List Char} {x : Binary64} :
    readNumber s = some x ↔ ∃ (sign : LiteralSign) (u : UnsignedLiteral),
      Text.Padded (sign.chars ++ u.chars) s ∧ (u.literal sign.negative).value = x ∧
        x.isFinite = true := by
  rw [readNumber, Option.filter_eq_some_iff, Option.map_eq_some_iff]
  constructor
  · rintro ⟨⟨l, hl, rfl⟩, hfinite⟩
    obtain ⟨sign, u, htrim, rfl⟩ := DecimalLiteral.exists_of_read hl
    exact ⟨sign, u, htrim ▸ Text.padded_trim s, rfl, hfinite⟩
  · rintro ⟨sign, u, hpadded, rfl, hfinite⟩
    rw [Text.trim_of_padded hpadded fun c hc => (u.not_blank sign c hc).1]
    exact ⟨⟨_, DecimalLiteral.read_unsigned sign u, rfl⟩, hfinite⟩

/-! ## Coordinates -/

/-- A coordinate as it should be written: a finite number behind one minus sign or none. -/
structure Coordinate where
  minus : Bool
  magnitude : UnsignedLiteral
  finite : (magnitude.literal minus).value.isFinite = true

namespace Coordinate

def chars (a : Coordinate) : List Char := LiteralText.sign a.minus ++ a.magnitude.chars

def value (a : Coordinate) : Binary64 := (a.magnitude.literal a.minus).value

theorem not_blank (a : Coordinate) : ∀ c ∈ a.chars, Text.isBlank c = false ∧ c ≠ ',' := by
  rw [chars]
  cases a.minus with
  | true => exact a.magnitude.not_blank .minus
  | false => exact a.magnitude.not_blank .none

theorem not_isEmpty (a : Coordinate) : (!a.chars.isEmpty) = true := by
  obtain ⟨c, rest, hchars, -⟩ := a.magnitude.exists_chars_eq_cons
  rw [chars, hchars]
  cases a.minus <;> rfl

end Coordinate

/-- Whether a text begins like an unsigned literal. -/
def beginsUnsigned : List Char → Bool
  | c :: _ => Text.isAsciiDigit c || c == '.'
  | [] => false

/-- Whether a text begins like a literal, or like one behind a minus sign. -/
def beginsPlainly : List Char → Bool
  | '-' :: rest => beginsUnsigned rest
  | s => beginsUnsigned s

@[simp]
theorem beginsUnsigned_minus (rest : List Char) : beginsUnsigned ('-' :: rest) = false := rfl

theorem beginsUnsigned_chars (u : UnsignedLiteral) : beginsUnsigned u.chars = true := by
  obtain ⟨c, rest, hchars, hc⟩ := u.exists_chars_eq_cons
  rw [hchars, beginsUnsigned, Bool.or_eq_true, beq_iff_eq]
  exact hc

theorem chars_ne_minus (u : UnsignedLiteral) (rest : List Char) : u.chars ≠ '-' :: rest := by
  intro h
  have hunsigned := beginsUnsigned_chars u
  rw [h, beginsUnsigned_minus] at hunsigned
  cases hunsigned

theorem beginsPlainly_coordinate (a : Coordinate) : beginsPlainly a.chars = true := by
  rw [Coordinate.chars]
  cases a.minus with
  | true => exact beginsUnsigned_chars a.magnitude
  | false =>
    show beginsPlainly a.magnitude.chars = true
    unfold beginsPlainly
    split
    · rename_i heq
      exact absurd heq (chars_ne_minus _ _)
    · exact beginsUnsigned_chars a.magnitude

theorem readSigned_of_ne_minus {s : List Char} (h : ∀ rest, s ≠ '-' :: rest) :
    readSigned s = readNumber s := by
  unfold readSigned
  split
  · exact absurd rfl (h _)
  · rfl

theorem readNumber_signed {sign : LiteralSign} {u : UnsignedLiteral}
    (h : (u.literal sign.negative).value.isFinite = true) :
    readNumber (sign.chars ++ u.chars) = some (u.literal sign.negative).value :=
  readNumber_eq_some_iff.2 ⟨sign, u, Text.padded_self _, rfl, h⟩

theorem readSigned_coordinate (a : Coordinate) : readSigned a.chars = some a.value := by
  -- the sign does not matter for whether a number is finite
  have hread : readNumber a.magnitude.chars = some (a.magnitude.literal false).value :=
    @readNumber_signed .none a.magnitude a.finite
  rw [Coordinate.chars, Coordinate.value]
  cases a.minus with
  | true =>
    show (readNumber a.magnitude.chars).map (·.neg) = _
    rw [hread]
    rfl
  | false => exact (readSigned_of_ne_minus (chars_ne_minus a.magnitude)).trans hread

/-- What is read from a first digit or point on is an unsigned literal. -/
theorem exists_unsigned {s : List Char} {x : Binary64} (h : readNumber s = some x)
    (hplain : beginsUnsigned s = true) : ∃ (u : UnsignedLiteral) (after : List Char),
      s = u.chars ++ after ∧ (∀ c ∈ after, Text.isBlank c = true) ∧
        (u.literal false).value = x ∧ x.isFinite = true := by
  obtain ⟨sign, u, ⟨before, after, rfl, hbefore, hafter⟩, hvalue, hfinite⟩ :=
    readNumber_eq_some_iff.1 h
  cases before with
  | cons c before =>
    have hc := hbefore c List.mem_cons_self
    rw [List.cons_append, beginsUnsigned, Bool.or_eq_true, beq_iff_eq] at hplain
    rcases hplain with hdigit | rfl
    · rw [Text.isBlank_of_isWord (Text.isWord_of_isAsciiDigit hdigit)] at hc
      cases hc
    · exact absurd hc (by decide)
  | nil =>
    cases sign with
    | plus | minus => exact absurd hplain Bool.false_ne_true
    | none => exact ⟨u, after, rfl, hafter, hvalue, hfinite⟩

theorem exists_coordinate {s : List Char} {x : Binary64} (h : readSigned s = some x)
    (hplain : beginsPlainly s = true) : ∃ a : Coordinate, Text.Padded a.chars s ∧ a.value = x := by
  unfold beginsPlainly at hplain
  split at hplain
  · obtain ⟨y, hy, rfl⟩ := Option.map_eq_some_iff.1 h
    obtain ⟨u, after, rfl, hafter, rfl, hfinite⟩ := exists_unsigned hy hplain
    exact ⟨⟨true, u, hfinite⟩, ⟨[], after, rfl, List.forall_mem_nil _, hafter⟩, rfl⟩
  · rename_i hminus
    rw [readSigned_of_ne_minus hminus] at h
    obtain ⟨u, after, rfl, hafter, rfl, hfinite⟩ := exists_unsigned h hplain
    exact ⟨⟨false, u, hfinite⟩, ⟨[], after, rfl, List.forall_mem_nil _, hafter⟩, rfl⟩

/-- What is taken as a coordinate: a literal with a plus sign or none, or a number behind a minus
sign, which may have blanks and a sign of its own. -/
inductive IsTaken : List Char → Binary64 → Prop
  | plain {sign : LiteralSign} {u : UnsignedLiteral} (hsign : sign ≠ .minus)
      (hfinite : (u.literal false).value.isFinite = true) :
      IsTaken (sign.chars ++ u.chars) (u.literal false).value
  | behindMinus {sign : LiteralSign} {u : UnsignedLiteral} {rest : List Char}
      (hrest : Text.Padded (sign.chars ++ u.chars) rest)
      (hfinite : (u.literal sign.negative).value.isFinite = true) :
      IsTaken ('-' :: rest) (u.literal !sign.negative).value

theorem readSigned_of_isTaken {s : List Char} {x : Binary64} (h : IsTaken s x) :
    readSigned s = some x := by
  cases h with
  | @plain sign u hsign hfinite =>
    cases sign with
    | minus => exact absurd rfl hsign
    | plus => exact @readNumber_signed .plus u hfinite
    | none =>
      show Capture.readSigned u.chars = _
      rw [readSigned_of_ne_minus (chars_ne_minus u)]
      exact @readNumber_signed .none u hfinite
  | @behindMinus sign u rest hrest hfinite =>
    show (readNumber rest).map (·.neg) = _
    rw [readNumber_eq_some_iff.2 ⟨sign, u, hrest, rfl, hfinite⟩]
    rfl

theorem readSigned_trim_iff (s : List Char) (x : Binary64) :
    readSigned (Text.trim s) = some x ↔ IsTaken (Text.trim s) x := by
  constructor
  · intro h
    by_cases hminus : ∃ rest, Text.trim s = '-' :: rest
    · obtain ⟨rest, htrim⟩ := hminus
      rw [htrim] at h ⊢
      obtain ⟨y, hy, rfl⟩ := Option.map_eq_some_iff.1 h
      obtain ⟨sign, u, hpadded, rfl, hfinite⟩ := readNumber_eq_some_iff.1 hy
      exact .behindMinus hpadded hfinite
    · rw [readSigned_of_ne_minus (not_exists.1 hminus)] at h
      obtain ⟨sign, u, hpadded, rfl, hfinite⟩ := readNumber_eq_some_iff.1 h
      -- a text that is trimmed has no blanks to pad a literal with
      have htrim : Text.trim s = sign.chars ++ u.chars :=
        Text.trim_of_padded (hpadded.pad (Text.padded_trim s)) fun c hc => (u.not_blank sign c hc).1
      rw [htrim] at hminus ⊢
      cases sign with
      | minus => exact absurd ⟨u.chars, rfl⟩ hminus
      | plus => exact @IsTaken.plain .plus u (by decide) hfinite
      | none => exact @IsTaken.plain .none u (by decide) hfinite
  · exact readSigned_of_isTaken

/-! ## Pairs -/

/-- What may stand behind two coordinates: nothing, or a comma and blanks. -/
def IsEnding (s : List Char) : Prop :=
  s = [] ∨ ∃ blanks, s = ',' :: blanks ∧ ∀ c ∈ blanks, Text.isBlank c = true

/-- Two coordinates with blanks around them, a comma between them and maybe one behind them. -/
def IsPair (raw : List Char) (o : Offset) : Prop :=
  ∃ (a b : Coordinate) (s t ending : List Char), raw = s ++ ',' :: (t ++ ending) ∧
    Text.Padded a.chars s ∧ Text.Padded b.chars t ∧ IsEnding ending ∧ o = ⟨a.value, b.value⟩

/-- Whether the commas of a text and the beginnings of its coordinates are those of a pair. -/
def isTidy (raw : List Char) : Bool :=
  match (raw.splitOn ',').map Text.trim with
  | [s, t] | [s, t, []] => beginsPlainly s && beginsPlainly t
  | _ => false

/-- What stands between the commas of a text, if it is not blank. -/
def pieces (raw : List Char) : List (List Char) :=
  ((raw.splitOn ',').map Text.trim).filter (!·.isEmpty)

theorem readOffset_eq_some_iff {raw : List Char} {o : Offset} : readOffset raw = some o ↔
    ∃ s t, pieces raw = [s, t] ∧ readSigned s = some o.x ∧ readSigned t = some o.y := by
  constructor
  · intro h
    unfold readOffset at h
    split at h
    · rename_i s t hpieces
      obtain ⟨x, hx, h⟩ := Option.bind_eq_some_iff.1 h
      obtain ⟨y, hy, h⟩ := Option.bind_eq_some_iff.1 h
      cases h
      exact ⟨s, t, hpieces, hx, hy⟩
    · cases h
  · rintro ⟨s, t, hpieces, hx, hy⟩
    rw [pieces] at hpieces
    simp only [readOffset, hpieces, hx, hy]
    rfl

/-- **What is read in general.** -/
theorem readOffset_iff_isTaken {raw : List Char} {o : Offset} : readOffset raw = some o ↔
    ∃ s t, pieces raw = [s, t] ∧ IsTaken s o.x ∧ IsTaken t o.y := by
  have htaken {s : List Char} (hs : s ∈ pieces raw) (x : Binary64) :
      readSigned s = some x ↔ IsTaken s x := by
    obtain ⟨piece, -, rfl⟩ := List.mem_map.1 (List.mem_filter.1 hs).1
    exact readSigned_trim_iff piece x
  rw [readOffset_eq_some_iff]
  refine exists_congr fun s => exists_congr fun t => and_congr_right fun hpieces => ?_
  have hs : s ∈ pieces raw := hpieces ▸ List.mem_cons_self
  have ht : t ∈ pieces raw := hpieces ▸ List.mem_cons_of_mem s List.mem_cons_self
  rw [htaken hs, htaken ht]

theorem not_mem_of_coordinate {a : Coordinate} {s : List Char} (h : Text.Padded a.chars s) :
    ',' ∉ s := by
  obtain ⟨before, after, rfl, hbefore, hafter⟩ := h
  have hblank {t : List Char} (ht : ∀ c ∈ t, Text.isBlank c = true) : ',' ∉ t :=
    fun hc => absurd (ht _ hc) (by decide)
  have hchars : ',' ∉ a.chars := fun hc => (a.not_blank _ hc).2 rfl
  rw [List.mem_append, List.mem_append]
  exact not_or.2 ⟨hblank hbefore, not_or.2 ⟨hchars, hblank hafter⟩⟩

theorem trim_of_coordinate {a : Coordinate} {s : List Char} (h : Text.Padded a.chars s) :
    Text.trim s = a.chars :=
  Text.trim_of_padded h fun c hc => (a.not_blank c hc).1

/-- What stands between the commas of a pair: two coordinates, and maybe nothing. -/
theorem map_trim_splitOn {a b : Coordinate} {s t ending : List Char}
    (hs : Text.Padded a.chars s) (ht : Text.Padded b.chars t) (hending : IsEnding ending) :
    ∃ last, (last = [] ∨ last = [[]]) ∧
      ((s ++ ',' :: (t ++ ending)).splitOn ',').map Text.trim = a.chars :: b.chars :: last := by
  rw [List.splitOn_append_cons_self_of_not_mem (not_mem_of_coordinate hs), List.map_cons,
    trim_of_coordinate hs]
  rcases hending with rfl | ⟨blanks, rfl, hblanks⟩
  · refine ⟨[], .inl rfl, ?_⟩
    rw [List.append_nil, List.splitOn_eq_singleton (not_mem_of_coordinate ht), List.map_singleton,
      trim_of_coordinate ht]
  · have hcomma : ',' ∉ blanks := fun hc => absurd (hblanks _ hc) (by decide)
    have htrim : Text.trim blanks = [] :=
      Text.trim_of_padded ⟨blanks, [], (List.append_nil _).symm, hblanks, List.forall_mem_nil _⟩
        (List.forall_mem_nil _)
    refine ⟨[[]], .inr rfl, ?_⟩
    rw [List.splitOn_append_cons_self_of_not_mem (not_mem_of_coordinate ht),
      List.splitOn_eq_singleton hcomma, List.map_cons, List.map_singleton, trim_of_coordinate ht,
      htrim]

theorem filter_last {last : List (List Char)} (h : last = [] ∨ last = [[]]) :
    last.filter (!·.isEmpty) = [] := by
  rcases h with rfl | rfl <;> rfl

theorem IsPair.readOffset {raw : List Char} {o : Offset} (h : IsPair raw o) :
    readOffset raw = some o ∧ isTidy raw = true := by
  obtain ⟨a, b, s, t, ending, rfl, hs, ht, hending, rfl⟩ := h
  obtain ⟨last, hlast, hsplit⟩ := map_trim_splitOn hs ht hending
  constructor
  · refine readOffset_eq_some_iff.2 ⟨a.chars, b.chars, ?_, readSigned_coordinate a,
      readSigned_coordinate b⟩
    simp only [pieces, hsplit, List.filter_cons, a.not_isEmpty, b.not_isEmpty,
      filter_last hlast, if_true]
  · have hplain : (beginsPlainly a.chars && beginsPlainly b.chars) = true := by
      rw [beginsPlainly_coordinate, beginsPlainly_coordinate]
      rfl
    rw [isTidy, hsplit]
    rcases hlast with rfl | rfl
    · exact hplain
    · exact hplain

theorem exists_of_map_trim_splitOn {raw s t : List Char} {last : List (List Char)}
    (hlast : last = [] ∨ last = [[]]) (h : (raw.splitOn ',').map Text.trim = s :: t :: last) :
    ∃ s' t' ending, raw = s' ++ ',' :: (t' ++ ending) ∧ Text.Padded s s' ∧ Text.Padded t t' ∧
      IsEnding ending := by
  obtain ⟨s', rest, hsplit, rfl, hrest⟩ := List.map_eq_cons_iff.1 h
  obtain ⟨t', last', rfl, rfl, hlast'⟩ := List.map_eq_cons_iff.1 hrest
  have hraw : [','].intercalate (s' :: t' :: last') = raw := by
    rw [← hsplit, List.intercalate_splitOn]
  rw [List.intercalate_cons_cons] at hraw
  rcases hlast with rfl | rfl
  · rw [List.map_eq_nil_iff.1 hlast', List.intercalate_singleton] at hraw
    refine ⟨s', t', [], ?_, Text.padded_trim s', Text.padded_trim t', .inl rfl⟩
    rw [← hraw, List.append_nil, List.append_assoc, List.singleton_append]
  · obtain ⟨blanks, nothing, rfl, hblanks, hnothing⟩ := List.map_eq_cons_iff.1 hlast'
    rw [List.map_eq_nil_iff.1 hnothing, List.intercalate_cons_cons, List.intercalate_singleton]
      at hraw
    obtain ⟨before, after, hpadded, hbefore, hafter⟩ := Text.padded_trim blanks
    rw [hblanks, List.nil_append] at hpadded
    refine ⟨s', t', ',' :: blanks, ?_, Text.padded_trim s', Text.padded_trim t',
      .inr ⟨blanks, rfl, hpadded ▸ List.forall_mem_append.2 ⟨hbefore, hafter⟩⟩⟩
    rw [← hraw]
    simp only [List.append_assoc, List.singleton_append]

theorem not_isEmpty_of_beginsPlainly {s : List Char} (h : beginsPlainly s = true) :
    (!s.isEmpty) = true := by
  cases s with
  | nil => exact absurd h Bool.false_ne_true
  | cons => rfl

theorem isPair_of_readOffset {raw : List Char} {o : Offset} (h : Capture.readOffset raw = some o)
    (htidy : isTidy raw = true) : IsPair raw o := by
  have hcommas : ∃ s t last, (last = [] ∨ last = [[]]) ∧
      (raw.splitOn ',').map Text.trim = s :: t :: last ∧
      beginsPlainly s = true ∧ beginsPlainly t = true := by
    unfold isTidy at htidy
    split at htidy
    · rename_i s t hsplit
      exact ⟨s, t, [], .inl rfl, hsplit, Bool.and_eq_true_iff.1 htidy⟩
    · rename_i s t hsplit
      exact ⟨s, t, [[]], .inr rfl, hsplit, Bool.and_eq_true_iff.1 htidy⟩
    · cases htidy
  obtain ⟨s, t, last, hlast, hsplit, hs, ht⟩ := hcommas
  obtain ⟨x, y, hpieces, hx, hy⟩ := readOffset_eq_some_iff.1 h
  simp only [pieces, hsplit, List.filter_cons, not_isEmpty_of_beginsPlainly hs,
    not_isEmpty_of_beginsPlainly ht, filter_last hlast, if_true] at hpieces
  cases hpieces
  obtain ⟨a, ha, hxa⟩ := exists_coordinate hx hs
  obtain ⟨b, hb, hyb⟩ := exists_coordinate hy ht
  obtain ⟨s', t', ending, rfl, hs', ht', hending⟩ := exists_of_map_trim_splitOn hlast hsplit
  exact ⟨a, b, s', t', ending, rfl, ha.pad hs', hb.pad ht', hending, by rw [hxa, hyb]⟩

/-- **A pair is what is read and has its commas and signs where they should be.** -/
theorem isPair_iff {raw : List Char} {o : Offset} :
    IsPair raw o ↔ readOffset raw = some o ∧ isTidy raw = true :=
  ⟨IsPair.readOffset, fun h => isPair_of_readOffset h.1 h.2⟩

theorem reads_pairs_iff {raw : List Char} : (∀ o, readOffset raw = some o ↔ IsPair raw o) ↔
    readOffset raw = none ∨ isTidy raw = true := by
  constructor
  · intro h
    cases hread : readOffset raw with
    | none => exact .inl rfl
    | some o => exact .inr (isPair_iff.1 ((h o).1 hread)).2
  · rintro (hnone | htidy) o
    · rw [isPair_iff, hnone]
      exact ⟨fun h => absurd h.symm (Option.some_ne_none o), fun h => h.1⟩
    · rw [isPair_iff]
      exact ⟨fun h => ⟨h, htidy⟩, fun h => h.1⟩

end Capture

/-! ## Shadows -/

namespace Hit

variable {α : Type} {h : Hit} {part : Pattern} {read : List Char → Option α} {code : LogCode}
  {message : String} {value : Option α} {ws : List BuildWarning}

theorem PartMeans.warnings_eq (hm : h.PartMeans part read code message value ws) :
    ws = ((Detail.find? part h.body).filter fun raw => (read raw).isNone).toList.map
      (h.complaint code message) := by
  cases hm with
  | missing hf => rw [hf, Option.filter_none, Option.toList_none, List.map_nil]
  | readable hf hr =>
    rw [hf, Option.filter_some, hr]
    rfl
  | malformed hf hr =>
    rw [hf, Option.filter_some, hr]
    rfl

theorem PartMeans.filter_code_self (hm : h.PartMeans part read code message value ws) :
    (ws.filter fun w => w.code = code) = ws :=
  List.filter_eq_self.2 fun _ hw => decide_eq_true (hm.code_eq hw)

theorem PartMeans.filter_code_ne (hm : h.PartMeans part read code message value ws)
    {other : LogCode} (hne : code ≠ other) : (ws.filter fun w => w.code = other) = [] :=
  List.filter_eq_nil_iff.2 fun _ hw hcode => hne (hm.code_eq hw ▸ of_decide_eq_true hcode)

/-- The complaint about the offset of a shadow, if there is an offset and it is refused. -/
def offsetComplaint? (h : Hit) : Option BuildWarning :=
  if h.shape = .shadow then
    ((Detail.find? Detail.offset h.body).filter fun raw => (Capture.readOffset raw).isNone).map
      (h.complaint .malformedOffset "Shadow offset is not an (x, y) pair")
  else none

theorem filter_warnings_offset (h : Hit) :
    (h.warnings.filter fun w => w.code = .malformedOffset) = h.offsetComplaint?.toList := by
  have hm := h.means
  generalize h.bindings = bs at hm
  generalize h.warnings = ws at hm ⊢
  cases hm with
  | color hs | number hs | duration hs | curve hs =>
    rw [offsetComplaint?, if_neg (by rw [hs]; decide)]
    rfl
  | malformedColor hs | malformedNumber hs | malformedDuration hs =>
    rw [offsetComplaint?, if_neg (by rw [hs]; decide)]
    rfl
  | gradient hs =>
    rw [offsetComplaint?, if_neg (by rw [hs]; decide), Option.toList_none, List.filter_eq_nil_iff]
    intro w hw
    obtain ⟨raw, -, rfl⟩ := List.mem_map.1 hw
    show ¬ decide (LogCode.malformedColor = LogCode.malformedOffset) = true
    decide
  | textStyle hs hsize =>
    rw [offsetComplaint?, if_neg (by rw [hs]; decide)]
    exact hsize.filter_code_ne (by decide)
  | shadow hs hblur hoffset halpha =>
    rw [offsetComplaint?, if_pos hs, List.filter_append, List.filter_append,
      hblur.filter_code_ne (by decide), halpha.filter_code_ne (by decide), List.nil_append,
      List.append_nil, hoffset.filter_code_self, Option.toList_map]
    exact hoffset.warnings_eq

theorem bindings_of_shadow (hs : h.shape = .shadow) : h.bindings =
    [(h.name, .shadow ⟨(Detail.find? Detail.blurRadius h.body).bind Capture.readNumber,
      (Detail.find? Detail.offset h.body).bind Capture.readOffset,
      (Detail.find? Detail.alpha h.body).bind Capture.readNumber⟩)] := by
  have hm := h.means
  generalize h.bindings = bs at hm ⊢
  generalize h.warnings = ws at hm
  cases hm with
  | shadow _ hblur hoffset halpha => rw [← hblur.value_eq, ← hoffset.value_eq, ← halpha.value_eq]
  | color hs' | malformedColor hs' | gradient hs' | number hs' | malformedNumber hs'
  | textStyle hs' | duration hs' | malformedDuration hs' | curve hs' =>
    exact absurd (hs.symm.trans hs') (by decide)

end Hit

theorem Build.filter_warnings_offset (hits : List Hit) :
    ((ofHits hits).warnings.filter fun w => w.code = .malformedOffset) =
      hits.filterMap Hit.offsetComplaint? := by
  rw [warnings_ofHits, List.filter_flatMap, List.filterMap_eq_flatMap_toList]
  exact congrArg (hits.flatMap ·) (funext Hit.filter_warnings_offset)

/-- **Which texts are offsets, and what becomes of the others.** Just the pairs are read of texts
that are refused or tidy, that is, that have the commas and signs of a pair; and each pair is read,
as the values that its digits and exponents show. In general a text is read if just two of its
pieces are not blank, and both are taken. A shadow whose offset is refused keeps what else can be
read of it, and the complaints about offsets are one for each such shadow. -/
theorem Build.offset_read_or_dropped (raw : List Char) (hits : List Hit) :
    ((∀ o, Capture.readOffset raw = some o ↔ Capture.IsPair raw o) ↔
        Capture.readOffset raw = none ∨ Capture.isTidy raw = true) ∧
      (∀ o, Capture.IsPair raw o ↔
        Capture.readOffset raw = some o ∧ Capture.isTidy raw = true) ∧
      (∀ a : Capture.Coordinate, a.magnitude.digits.length ≤ 40000 → a.value =
        .ofDecimal a.minus (decimalValue a.magnitude.digits)
          (a.magnitude.power - (a.magnitude.fraction.getD []).length)) ∧
      (∀ o, Capture.readOffset raw = some o ↔ ∃ s t, Capture.pieces raw = [s, t] ∧
        Capture.IsTaken s o.x ∧ Capture.IsTaken t o.y) ∧
      (∀ h ∈ hits, h.shape = .shadow → h.bindings =
        [(h.name, .shadow ⟨(Detail.find? Detail.blurRadius h.body).bind Capture.readNumber,
          (Detail.find? Detail.offset h.body).bind Capture.readOffset,
          (Detail.find? Detail.alpha h.body).bind Capture.readNumber⟩)]) ∧
      ((ofHits hits).warnings.filter fun w => w.code = .malformedOffset) =
        hits.filterMap Hit.offsetComplaint? := by
  exact ⟨Capture.reads_pairs_iff, fun o => Capture.isPair_iff,
    fun a ha => UnsignedLiteral.value_literal ha a.minus, fun o => Capture.readOffset_iff_isTaken,
    fun h _ => h.bindings_of_shadow, filter_warnings_offset hits⟩

-- A second minus sign is read, and so is a comma too many.
theorem Capture.offset_overread :
    Capture.readOffset "--4, 2".toList = some ⟨.ofDecimal false 4 0, .ofDecimal false 2 0⟩ ∧
      (∀ o, ¬ Capture.IsPair "--4, 2".toList o) ∧
      Capture.readOffset "1,,2".toList = some ⟨.ofDecimal false 1 0, .ofDecimal false 2 0⟩ ∧
      ∀ o, ¬ Capture.IsPair "1,,2".toList o := by
  have huntidy {raw : List Char} (h : Capture.isTidy raw = false) (o : Offset) :
      ¬ Capture.IsPair raw o := by
    rw [Capture.isPair_iff, h]
    exact fun hpair => Bool.false_ne_true hpair.2
  exact ⟨by decide +kernel, huntidy (by decide), by decide +kernel, huntidy (by decide)⟩

end DesignTokens
