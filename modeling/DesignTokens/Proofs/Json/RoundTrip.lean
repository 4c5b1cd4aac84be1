import DesignTokens.Json.Printer
import DesignTokens.Proofs.Number.DocumentText
import Mathlib.Data.List.DropRight

/-!
# JSON text reads back

What the printer spreads over lines is read as the value that was printed: texts with any
characters, whole numbers of 64 bits, finite doubles, and arrays and objects of those. Each part of
a text is read up to its end whatever stands behind it, as long as that does not go on with a
number. Objects keep their members in order.
-/

namespace DesignTokens.Json

/-! ## Blanks -/

theorem skipSpace_append {b : List Char} (hb : ∀ c ∈ b, isSpace c = true) (s : List Char) :
    skipSpace (b ++ s) = skipSpace s :=
  List.dropWhile_append_of_pos hb

theorem skipSpace_cons {c : Char} (hc : isSpace c = false) (s : List Char) :
    skipSpace (c :: s) = c :: s :=
  List.dropWhile_cons_of_neg (by rw [hc]; decide)

theorem readValue_skipSpace (fuel : Nat) (s : List Char) :
    readValue fuel (skipSpace s) = readValue fuel s := by
  have hidem : skipSpace (skipSpace s) = skipSpace s := List.dropWhile_idempotent _ _
  cases fuel with
  | zero => rfl
  | succ fuel => rw [readValue, readValue, hidem]

theorem readItems_skipSpace (fuel : Nat) (s : List Char) (done : List Json) :
    readItems fuel (skipSpace s) done = readItems fuel s done := by
  cases fuel with
  | zero => rfl
  | succ fuel => rw [readItems, readItems, readValue_skipSpace]

theorem readMembers_skipSpace (fuel : Nat) (s : List Char) (done : List (String × Json)) :
    readMembers fuel (skipSpace s) done = readMembers fuel s done := by
  have hidem : skipSpace (skipSpace s) = skipSpace s := List.dropWhile_idempotent _ _
  cases fuel with
  | zero => rfl
  | succ fuel => rw [readMembers, readMembers, hidem]

section Blanks

variable {b : List Char} (hb : ∀ c ∈ b, isSpace c = true) (fuel : Nat) (s : List Char)
include hb

theorem readItems_blank (done : List Json) :
    readItems fuel (b ++ s) done = readItems fuel s done := by
  rw [← readItems_skipSpace, skipSpace_append hb, readItems_skipSpace]

theorem readMembers_blank (done : List (String × Json)) :
    readMembers fuel (b ++ s) done = readMembers fuel s done := by
  rw [← readMembers_skipSpace, skipSpace_append hb, readMembers_skipSpace]

end Blanks

/-! ## Texts -/

theorem hexValue_hexDigit (n : Nat) : hexValue (hexDigit n) = some (n % 16) := by
  have hall : ∀ k < 16, hexValue (Nat.digitChar k) = some k := by decide
  exact hall _ (Nat.mod_lt _ (by decide))

theorem readUnit_escape {n : Nat} (hn : n < 32) (rest : List Char) :
    readUnit ('0' :: '0' :: hexDigit (n / 16) :: hexDigit n :: rest) = some (n, rest) := by
  have hzero : hexValue '0' = some 0 := rfl
  have hsum : 0 * 4096 + 0 * 256 + n / 16 % 16 * 16 + n % 16 = n := by omega
  simp only [readUnit, hexValue_hexDigit, hzero, Option.bind_eq_bind, Option.bind_some, hsum]
  rfl

-- One character, whether it is escaped or stands as it is.
theorem readQuoted_escapeChar (c : Char) (fuel : Nat) (rest done : List Char) :
    readQuoted (fuel + 1) (escapeChar c ++ rest) done = readQuoted fuel rest (c :: done) := by
  unfold escapeChar
  iterate 7
    split
    · rename_i hc
      rw [hc]
      rfl
  split
  · rename_i hlow
    show readQuoted (fuel + 1) ('\\' :: 'u' :: '0' :: '0' :: hexDigit (c.toNat / 16)
      :: hexDigit c.toNat :: rest) done = _
    rw [readQuoted, readUnit_escape hlow]
    simp only
    rw [if_neg (by omega), if_neg (by omega), Char.ofNat_toNat]
  · rename_i hquote hslash _ _ _ _ _ hlow
    rw [List.singleton_append, readQuoted, if_neg (not_or.2 ⟨hlow, hslash⟩)]
    · exact hquote
    · exact fun _ hc => absurd hc hslash
    · exact fun _ _ hc => absurd hc hslash

theorem readQuoted_chars (s : List Char) (fuel : Nat) (hf : s.length < fuel)
    (rest done : List Char) :
    readQuoted fuel (s.flatMap escapeChar ++ '"' :: rest) done =
      some (String.ofList (done.reverse ++ s), rest) := by
  induction s generalizing fuel done with
  | nil =>
    obtain ⟨fuel, rfl⟩ := Nat.exists_eq_add_one.2 hf
    rw [List.append_nil]
    rfl
  | cons c s ih =>
    rw [List.length_cons] at hf
    obtain ⟨fuel, rfl⟩ : ∃ n, fuel = n + 1 := ⟨fuel - 1, by omega⟩
    rw [List.flatMap_cons, List.append_assoc, readQuoted_escapeChar, ih fuel (by omega),
      List.reverse_cons, List.append_assoc]
    rfl

theorem toList_quote (s : String) :
    (quote s).toList = '"' :: (s.toList.flatMap escapeChar ++ ['"']) :=
  String.toList_ofList

theorem length_lt_quote (s : String) : s.toList.length + 2 ≤ (quote s).toList.length := by
  have hescape (c : Char) : 1 ≤ (escapeChar c).length := by
    unfold escapeChar
    repeat' split
    all_goals simp
  have hchars (t : List Char) : t.length ≤ (t.flatMap escapeChar).length := by
    induction t with
    | nil => exact Nat.le_refl 0
    | cons c t ih =>
      have hc := hescape c
      rw [List.flatMap_cons, List.length_append, List.length_cons]
      omega
  have hs := hchars s.toList
  rw [toList_quote, List.length_cons, List.length_append, List.length_singleton]
  omega

/-! ## Numbers -/

theorem isNumberChar_of_isSpace {c : Char} (h : isSpace c = true) : isNumberChar c = false := by
  simp only [isSpace, Bool.or_eq_true, beq_iff_eq] at h
  rcases h with ((rfl | rfl) | rfl) | rfl <;> rfl

theorem isNumberChar_of_isAsciiDigit {c : Char} (h : Text.isAsciiDigit c = true) :
    isNumberChar c = true := by
  simp [isNumberChar, h]

theorem mem_splitSign {s : List Char} {c : Char} (h : c ∈ s) :
    isNumberChar c = true ∨ c ∈ (DecimalLiteral.splitSign s).2 := by
  unfold DecimalLiteral.splitSign
  split
  · rcases List.mem_cons.1 h with rfl | h
    · exact .inl rfl
    · exact .inr h
  · rcases List.mem_cons.1 h with rfl | h
    · exact .inl rfl
    · exact .inr h
  · exact .inr h

theorem mem_splitDigits {s : List Char} {c : Char} (h : c ∈ s) :
    isNumberChar c = true ∨ c ∈ (DecimalLiteral.splitDigits s).2 := by
  rw [← List.takeWhile_append_dropWhile (p := Text.isAsciiDigit) (l := s)] at h
  rcases List.mem_append.1 h with h | h
  · exact .inl (isNumberChar_of_isAsciiDigit (Pattern.mem_takeWhile h))
  · exact .inr h

theorem isNumberChar_of_readExponent {mark : List Char} {k : Int}
    (h : DecimalLiteral.readExponent mark = some k) : ∀ c ∈ mark, isNumberChar c = true := by
  intro c hc
  unfold DecimalLiteral.readExponent at h
  split at h
  · cases hc
  · split at h
    · rename_i hletter
      simp only at h
      split at h
      · rename_i hdigits
        rcases List.mem_cons.1 hc with rfl | hc
        · rcases hletter with rfl | rfl <;> rfl
        · rcases mem_splitSign hc with hsign | hc
          · exact hsign
          · exact isNumberChar_of_isAsciiDigit (List.all_eq_true.1 hdigits.2 c hc)
      · cases h
    · cases h

-- A literal is read from characters of numbers only.
theorem isNumberChar_of_read {s : List Char} {l : DecimalLiteral}
    (h : DecimalLiteral.read s = some l) : ∀ c ∈ s, isNumberChar c = true := by
  intro c hc
  rcases mem_splitSign hc with hsign | hc
  · exact hsign
  rcases mem_splitDigits hc with hdigit | hc
  · exact hdigit
  simp only [DecimalLiteral.read] at h
  split at h
  · rename_i rest hrest
    split at h
    · cases h
    · obtain ⟨k, hk, -⟩ := Option.map_eq_some_iff.1 h
      rw [hrest] at hc
      rcases List.mem_cons.1 hc with rfl | hc
      · rfl
      · rcases mem_splitDigits hc with hdigit | hc
        · exact hdigit
        · exact isNumberChar_of_readExponent hk c hc
  · split at h
    · cases h
    · obtain ⟨k, hk, -⟩ := Option.map_eq_some_iff.1 h
      exact isNumberChar_of_readExponent hk c hc

theorem isNumberChar_of_readNumber {s : List Char} {v : Json} (h : readNumber s = some v) :
    ∀ c ∈ s, isNumberChar c = true := by
  unfold readNumber at h
  split at h
  · cases h
  · simp only at h
    split at h
    · cases h
    · rename_i l hl
      exact isNumberChar_of_read hl

theorem readNumber_nil : readNumber [] = none := rfl

/-! ## Values and their texts -/

/-- A text is read as a value, whatever stands behind it that does not go on with a number. -/
def Reads (v : Json) (t : List Char) : Prop :=
  ∀ (fuel : Nat) (rest : List Char), 2 * t.length ≤ fuel → Stops isNumberChar rest →
    readValue fuel (t ++ rest) = some (v, rest)

namespace Reads

variable {v : Json} {t : List Char}

theorem blank (h : Reads v t) {b : List Char} (hb : ∀ c ∈ b, isSpace c = true) :
    Reads v (b ++ t) := by
  intro fuel rest hf hr
  rw [List.length_append] at hf
  rw [List.append_assoc, ← readValue_skipSpace, skipSpace_append hb, readValue_skipSpace]
  exact h fuel rest (by omega) hr

-- A text that is read as a value does not start with a closing bracket.
theorem not_bracket (h : Reads v t) (rest : List Char) (hr : Stops isNumberChar rest)
    (u : List Char) : skipSpace (t ++ rest) ≠ ']' :: u := by
  intro hskip
  have hread := h (2 * t.length + 1) rest (Nat.le_succ _) hr
  rw [readValue, hskip] at hread
  cases hread

-- A text of fixed characters needs one step.
theorem of_step (hne : t ≠ [])
    (h : ∀ fuel rest, readValue (fuel + 1) (t ++ rest) = some (v, rest)) : Reads v t := by
  intro fuel rest hf _
  have hpos := List.length_pos_of_ne_nil hne
  obtain ⟨fuel, rfl⟩ : ∃ n, fuel = n + 1 := ⟨fuel - 1, by omega⟩
  exact h fuel rest

theorem null : Reads .null (atomText .null).toList :=
  .of_step (by decide) fun _ _ => rfl

theorem bool (b : Bool) : Reads (.bool b) (atomText (.bool b)).toList := by
  cases b with
  | true => exact .of_step (by decide) fun _ _ => rfl
  | false => exact .of_step (by decide) fun _ _ => rfl

theorem number (h : readNumber t = some v) : Reads v t := by
  intro fuel rest hf hr
  have hall := isNumberChar_of_readNumber h
  cases t with
  | nil =>
    rw [readNumber_nil] at h
    cases h
  | cons c t =>
    obtain ⟨fuel, rfl⟩ : ∃ n, fuel = n + 1 := ⟨fuel - 1, by rw [List.length_cons] at hf; omega⟩
    have hc := hall c List.mem_cons_self
    have hspace : isSpace c = false := by
      rw [← Bool.not_eq_true]
      intro hspace
      rw [isNumberChar_of_isSpace hspace] at hc
      cases hc
    have hskip : skipSpace (c :: t ++ rest) = c :: t ++ rest := skipSpace_cons hspace _
    have htake : (c :: t ++ rest).takeWhile isNumberChar = c :: t :=
      Pattern.takeWhile_append_stop hall hr
    have hdrop : (c :: t ++ rest).dropWhile isNumberChar = rest := by
      rw [List.dropWhile_append_of_pos hall]
      cases rest with
      | nil => rfl
      | cons d rest => exact List.dropWhile_cons_of_neg (by rw [hr d rfl]; decide)
    rw [readValue, hskip]
    split
    case h_8 => rw [htake, hdrop, h]; rfl
    all_goals
      rename_i heq
      cases heq
      try cases hc

theorem integer {n : Int} (hlow : -2 ^ 63 ≤ n) (hhigh : n < 2 ^ 64) :
    Reads (.integer n) (toString n).toList := by
  apply number
  cases n with
  | ofNat n =>
    have htext : (toString (Int.ofNat n)).toList = LiteralText.sign false ++ Nat.toDigits 10 n := by
      show (Nat.repr n).toList = _
      rw [Nat.repr_eq_ofList_toDigits, String.toList_ofList]
      rfl
    rw [htext]
    have hsmall : n < 2 ^ 64 := Int.ofNat_lt.1 hhigh
    exact readNumber_toDigits false hsmall
  | negSucc n =>
    have htext : (toString (Int.negSucc n)).toList =
        LiteralText.sign true ++ Nat.toDigits 10 (n + 1) := by
      show ("-" ++ Nat.repr (n + 1)).toList = _
      simp only [Nat.repr_eq_ofList_toDigits, String.toList_append, String.toList_ofList]
      rfl
    have hsmall : 0 < n + 1 ∧ n + 1 ≤ 2 ^ 63 := by omega
    rw [htext]
    exact readNumber_toDigits true hsmall

theorem string (s : String) : Reads (.string s) (quote s).toList := by
  intro fuel rest hf _
  have hlength := length_lt_quote s
  obtain ⟨fuel, rfl⟩ : ∃ n, fuel = n + 1 := ⟨fuel - 1, by omega⟩
  have htext : (quote s).toList ++ rest =
      '"' :: (s.toList.flatMap escapeChar ++ '"' :: rest) := by
    rw [toList_quote, List.cons_append, List.append_assoc, List.singleton_append]
  have hquoted := readQuoted_chars s.toList fuel (by omega) rest []
  rw [htext, readValue, skipSpace_cons (by decide)]
  simp only [hquoted, Option.map_some, List.reverse_nil, List.nil_append, String.ofList_toList]

end Reads

/-! ## Arrays and objects -/

/-- A text is read as a member of an object: blanks, a key, a colon and a value. -/
def ReadsMember (m : String × Json) (t : List Char) : Prop :=
  ∃ b u, (∀ c ∈ b, isSpace c = true) ∧ Reads m.2 u ∧ t = b ++ ((quote m.1).toList ++ ':' :: u)

-- A member starts with its key.
theorem ReadsMember.not_brace {m : String × Json} {t : List Char} (h : ReadsMember m t)
    (rest u : List Char) : skipSpace (t ++ rest) ≠ '\x7d' :: u := by
  obtain ⟨b, v, hblank, -, rfl⟩ := h
  rw [List.append_assoc, skipSpace_append hblank, toList_quote]
  intro heq
  cases heq

-- What the first of several texts keeps from standing at the start stands at no start.
theorem skipSpace_intercalate_ne {t : List Char} {bracket : Char}
    (h : ∀ rest, Stops isNumberChar rest → ∀ u, skipSpace (t ++ rest) ≠ bracket :: u)
    (gap : List Char) (ts : List (List Char)) {rest : List Char} (hr : Stops isNumberChar rest)
    (u : List Char) :
    skipSpace ((',' :: gap).intercalate (t :: ts) ++ rest) ≠ bracket :: u := by
  cases ts with
  | nil =>
    rw [List.intercalate_singleton]
    exact h rest hr u
  | cons =>
    rw [List.intercalate_cons_cons, List.append_assoc, List.append_assoc]
    exact h _ (stops_cons (by decide) _) u

-- A member, and the character behind it that says whether there are more.
theorem readMembers_member {m : String × Json} {t : List Char} (h : ReadsMember m t) (fuel : Nat)
    (hf : 2 * t.length ≤ fuel) {rest more : List Char} (hr : Stops isNumberChar rest) {c : Char}
    (hnext : skipSpace rest = c :: more) (done : List (String × Json)) :
    readMembers (fuel + 1) (t ++ rest) done =
      if c = ',' then readMembers fuel more (m :: done)
      else if c = '\x7d' then some ((m :: done).reverse, more)
      else none := by
  obtain ⟨b, u, hblank, hu, rfl⟩ := h
  have hquote := length_lt_quote m.1
  simp only [List.length_append, List.length_cons] at hf
  have htext : ((quote m.1).toList ++ ':' :: u) ++ rest =
      '"' :: (m.1.toList.flatMap escapeChar ++ '"' :: ':' :: (u ++ rest)) := by
    rw [toList_quote]
    simp only [List.cons_append, List.append_assoc, List.nil_append]
  have hkey := readQuoted_chars m.1.toList fuel (by omega) (':' :: (u ++ rest)) []
  have hvalue : readValue fuel (u ++ rest) = some (m.2, rest) := hu fuel rest (by omega) hr
  rw [List.append_assoc, readMembers_blank hblank, htext, readMembers, skipSpace_cons (by decide)]
  simp only [hkey, skipSpace_cons (by decide : isSpace ':' = false), hvalue, hnext,
    List.reverse_nil, List.nil_append, String.ofList_toList]
  by_cases hcomma : c = ','
  · subst hcomma
    exact rfl
  · by_cases hbrace : c = '\x7d'
    · subst hbrace
      exact rfl
    · rw [if_neg hcomma, if_neg hbrace]
      split
      · rename_i heq
        exact absurd (List.cons.inj heq).1 hcomma
      · rename_i heq
        exact absurd (List.cons.inj heq).1 hbrace
      · exact rfl

/-! ### Several parts

Blanks may stand behind an opening bracket, behind a comma and in front of a closing bracket. -/

section Parts

variable {front gap ending : List Char} (hfront : ∀ c ∈ front, isSpace c = true)
  (hgap : ∀ c ∈ gap, isSpace c = true) (hending : ∀ c ∈ ending, isSpace c = true)

include hending in
theorem stops_ending {bracket : Char} (hbracket : isNumberChar bracket = false)
    (rest : List Char) : Stops isNumberChar (ending ++ bracket :: rest) := by
  cases ending with
  | nil => exact stops_cons hbracket rest
  | cons c ending =>
    exact stops_cons (isNumberChar_of_isSpace (hending c List.mem_cons_self)) _

include hending in
theorem skipSpace_ending {bracket : Char} (hbracket : isSpace bracket = false)
    (rest : List Char) : skipSpace (ending ++ bracket :: rest) = bracket :: rest := by
  rw [skipSpace_append hending, skipSpace_cons hbracket]

include hgap hending

theorem readItems_texts {vs : List Json} {ts : List (List Char)} (h : List.Forall₂ Reads vs ts)
    (hne : vs ≠ []) (fuel : Nat) (hf : 2 * ((',' :: gap).intercalate ts).length < fuel)
    (rest : List Char) (done : List Json) :
    readItems fuel ((',' :: gap).intercalate ts ++ (ending ++ ']' :: rest)) done =
      some (done.reverse ++ vs, rest) := by
  induction h generalizing fuel done with
  | nil => exact absurd rfl hne
  | @cons v t vs ts hv hvs ih =>
    obtain ⟨fuel, rfl⟩ := Nat.exists_eq_add_one.2 (Nat.zero_lt_of_lt hf)
    cases hvs with
    | nil =>
      rw [List.intercalate_singleton] at hf ⊢
      have hread := hv fuel (ending ++ ']' :: rest) (by omega)
        (stops_ending hending (by decide) rest)
      rw [readItems, hread]
      simp only [skipSpace_ending hending (by decide : isSpace ']' = false), List.reverse_cons]
    | @cons w u vs ts hw hvs =>
      have hnext := ih (List.cons_ne_nil _ _) fuel
      rw [List.intercalate_cons_cons, List.append_assoc, List.append_assoc]
      rw [List.intercalate_cons_cons, List.append_assoc] at hf
      generalize (',' :: gap).intercalate (u :: ts) = more at *
      simp only [List.length_append, List.length_cons] at hf
      have hread := hv fuel (',' :: gap ++ (more ++ (ending ++ ']' :: rest))) (by omega)
        (stops_cons (by decide) _)
      rw [readItems, hread]
      show readItems fuel (gap ++ (more ++ (ending ++ ']' :: rest))) (v :: done) = _
      rw [readItems_blank hgap, hnext (by omega), List.reverse_cons, List.append_assoc]
      rfl

theorem readMembers_texts {ms : List (String × Json)} {ts : List (List Char)}
    (h : List.Forall₂ ReadsMember ms ts) (hne : ms ≠ []) (fuel : Nat)
    (hf : 2 * ((',' :: gap).intercalate ts).length < fuel) (rest : List Char)
    (done : List (String × Json)) :
    readMembers fuel ((',' :: gap).intercalate ts ++ (ending ++ '\x7d' :: rest)) done =
      some (done.reverse ++ ms, rest) := by
  induction h generalizing fuel done with
  | nil => exact absurd rfl hne
  | @cons m t ms ts hm hms ih =>
    obtain ⟨fuel, rfl⟩ := Nat.exists_eq_add_one.2 (Nat.zero_lt_of_lt hf)
    cases hms with
    | nil =>
      rw [List.intercalate_singleton] at hf ⊢
      have hend := skipSpace_ending hending (by decide : isSpace '\x7d' = false) rest
      rw [readMembers_member hm fuel (by omega) (stops_ending hending (by decide) rest) hend,
        if_neg (by decide), if_pos rfl, List.reverse_cons]
    | @cons n u ms ts hn hms =>
      have hnext := ih (List.cons_ne_nil _ _) fuel
      rw [List.intercalate_cons_cons, List.append_assoc, List.append_assoc]
      rw [List.intercalate_cons_cons, List.append_assoc] at hf
      generalize (',' :: gap).intercalate (u :: ts) = more at *
      simp only [List.length_append, List.length_cons] at hf
      have hstop : Stops isNumberChar (',' :: gap ++ (more ++ (ending ++ '\x7d' :: rest))) :=
        stops_cons (by decide) _
      have hcomma : skipSpace (',' :: gap ++ (more ++ (ending ++ '\x7d' :: rest))) =
          ',' :: (gap ++ (more ++ (ending ++ '\x7d' :: rest))) := rfl
      rw [readMembers_member hm fuel (by omega) hstop hcomma, if_pos rfl, readMembers_blank hgap,
        hnext (by omega), List.reverse_cons, List.append_assoc]
      rfl

include hfront

theorem Reads.array {vs : List Json} {ts : List (List Char)} (h : List.Forall₂ Reads vs ts)
    (hne : vs ≠ []) :
    Reads (.array vs) ('[' :: (front ++ ((',' :: gap).intercalate ts ++ (ending ++ [']'])))) := by
  intro fuel rest hf hr
  obtain ⟨fuel, rfl⟩ : ∃ n, fuel = n + 1 := ⟨fuel - 1, by simp only [List.length_cons] at hf; omega⟩
  simp only [List.length_cons, List.length_append] at hf
  have hitems := readItems_texts hgap hending h hne fuel (by omega) rest []
  have htext : '[' :: (front ++ ((',' :: gap).intercalate ts ++ (ending ++ [']']))) ++ rest =
      '[' :: (front ++ ((',' :: gap).intercalate ts ++ (ending ++ ']' :: rest))) := by
    simp only [List.cons_append, List.append_assoc, List.nil_append]
  -- the first item keeps the text from starting with the closing bracket
  have hfirst : ∀ u, skipSpace (front ++ ((',' :: gap).intercalate ts ++ (ending ++ ']' :: rest))) ≠
      ']' :: u := by
    rw [skipSpace_append hfront]
    cases h with
    | nil => exact absurd rfl hne
    | cons hv _ =>
      exact skipSpace_intercalate_ne hv.not_bracket gap _ (stops_ending hending (by decide) rest)
  rw [htext, readValue, skipSpace_cons (by decide)]
  simp only
  rw [readItems_skipSpace, readItems_blank hfront, hitems]
  rfl

theorem Reads.object {ms : List (String × Json)} {ts : List (List Char)}
    (h : List.Forall₂ ReadsMember ms ts) (hne : ms ≠ []) :
    Reads (.object ms)
      ('\x7b' :: (front ++ ((',' :: gap).intercalate ts ++ (ending ++ ['\x7d'])))) := by
  intro fuel rest hf hr
  obtain ⟨fuel, rfl⟩ : ∃ n, fuel = n + 1 := ⟨fuel - 1, by simp only [List.length_cons] at hf; omega⟩
  simp only [List.length_cons, List.length_append] at hf
  have hmembers := readMembers_texts hgap hending h hne fuel (by omega) rest []
  have htext :
      '\x7b' :: (front ++ ((',' :: gap).intercalate ts ++ (ending ++ ['\x7d']))) ++ rest =
        '\x7b' :: (front ++ ((',' :: gap).intercalate ts ++ (ending ++ '\x7d' :: rest))) := by
    simp only [List.cons_append, List.append_assoc, List.nil_append]
  have hfirst : ∀ u,
      skipSpace (front ++ ((',' :: gap).intercalate ts ++ (ending ++ '\x7d' :: rest))) ≠
        '\x7d' :: u := by
    rw [skipSpace_append hfront]
    cases h with
    | nil => exact absurd rfl hne
    | cons hm _ =>
      exact skipSpace_intercalate_ne (fun rest _ => hm.not_brace rest) gap _
        (stops_ending hending (by decide) rest)
  rw [htext, readValue, skipSpace_cons (by decide)]
  simp only
  rw [readMembers_skipSpace, readMembers_blank hfront, hmembers]
  rfl

end Parts

/-! ## Printed values -/

/-- What stands between the parts of an array or an object that is spread over lines. -/
def separator : List Char := [',', '\n']

/-- The end of an array or an object that is spread over lines: a line feed, blanks, and the closing
bracket. -/
def closing (blanks : List Char) (bracket : Char) (rest : List Char) : List Char :=
  '\n' :: (blanks ++ bracket :: rest)

/-- A value whose numbers are finite and whose whole numbers have 64 bits. -/
inductive Representable : Json → Prop
  | null : Representable null
  | bool {b : Bool} : Representable (bool b)
  | integer {n : Int} (hlow : -2 ^ 63 ≤ n) (hhigh : n < 2 ^ 64) : Representable (integer n)
  | number {x : Binary64} (h : x.isFinite = true) : Representable (number x)
  | string {s : String} : Representable (string s)
  | array {items : List Json} (h : ∀ v ∈ items, Representable v) : Representable (array items)
  | object {members : List (String × Json)} (h : ∀ m ∈ members, Representable m.2) :
      Representable (object members)

theorem isSpace_of_mem_indent (depth : Nat) : ∀ c ∈ (indent depth).toList, isSpace c = true := by
  intro c hc
  rw [indent, String.toList_ofList] at hc
  rw [(List.mem_replicate.1 hc).2]
  rfl

theorem isSpace_of_mem_newline : ∀ c ∈ ['\n'], isSpace c = true :=
  List.forall_mem_singleton.2 rfl

theorem isSpace_of_mem_closing (depth : Nat) :
    ∀ c ∈ '\n' :: (indent depth).toList, isSpace c = true :=
  List.forall_mem_cons.2 ⟨rfl, isSpace_of_mem_indent depth⟩

theorem forall₂_spreadItems {items : List Json} {depth : Nat}
    (h : ∀ v ∈ items, Reads v (spread depth v).toList) :
    List.Forall₂ Reads items ((spreadItems depth items).map String.toList) := by
  induction items with
  | nil => exact .nil
  | cons v items ih =>
    refine .cons ?_ (ih fun w hw => h w (List.mem_cons_of_mem v hw))
    rw [String.toList_append]
    exact (h v List.mem_cons_self).blank (isSpace_of_mem_indent depth)

theorem forall₂_spreadMembers {members : List (String × Json)} {depth : Nat}
    (h : ∀ m ∈ members, Reads m.2 (spread depth m.2).toList) :
    List.Forall₂ ReadsMember members ((spreadMembers depth members).map String.toList) := by
  induction members with
  | nil => exact .nil
  | cons m members ih =>
    refine .cons ?_ (ih fun n hn => h n (List.mem_cons_of_mem m hn))
    have hvalue : Reads m.2 (' ' :: (spread depth m.2).toList) :=
      (h m List.mem_cons_self).blank (List.forall_mem_singleton.2 rfl)
    refine ⟨(indent depth).toList, _, isSpace_of_mem_indent depth, hvalue, ?_⟩
    simp only [String.toList_append, List.append_assoc]
    rfl

theorem toList_spread_array (depth : Nat) (v : Json) (items : List Json) :
    (spread depth (array (v :: items))).toList =
      '[' :: '\n' ::
        (separator.intercalate ((spreadItems (depth + 1) (v :: items)).map String.toList)
          ++ closing (indent depth).toList ']' []) := by
  rw [spread]
  simp only [String.toList_append, String.toList_intercalate, List.append_assoc]
  rfl

theorem toList_spread_object (depth : Nat) (m : String × Json) (members : List (String × Json)) :
    (spread depth (object (m :: members))).toList =
      '\x7b' :: '\n' ::
        (separator.intercalate ((spreadMembers (depth + 1) (m :: members)).map String.toList)
          ++ closing (indent depth).toList '\x7d' []) := by
  rw [spread]
  simp only [String.toList_append, String.toList_intercalate, List.append_assoc]
  rfl

/-- **A printed value is read as itself**, at any depth. -/
theorem reads_spread {v : Json} (h : v.Representable) (depth : Nat) :
    Reads v (spread depth v).toList := by
  induction h generalizing depth with
  | null =>
    simp only [spread]
    exact .null
  | bool =>
    simp only [spread]
    exact .bool _
  | integer hlow hhigh => exact .integer hlow hhigh
  | number hx => exact .number (readNumber_numberText hx)
  | @string s => exact .string s
  | @array items _ ih =>
    cases items with
    | nil =>
      simp only [spread]
      exact .of_step (by decide) fun _ _ => rfl
    | cons v items =>
      have hread := Reads.array isSpace_of_mem_newline isSpace_of_mem_newline
        (isSpace_of_mem_closing depth) (forall₂_spreadItems fun w hw => ih w hw (depth + 1))
        (List.cons_ne_nil v items)
      rw [toList_spread_array]
      exact hread
  | @object members _ ih =>
    cases members with
    | nil =>
      simp only [spread]
      exact .of_step (by decide) fun _ _ => rfl
    | cons m members =>
      have hread := Reads.object isSpace_of_mem_newline isSpace_of_mem_newline
        (isSpace_of_mem_closing depth) (forall₂_spreadMembers fun n hn => ih n hn (depth + 1))
        (List.cons_ne_nil m members)
      rw [toList_spread_object]
      exact hread

/-- **A printed document is read as the value that was printed.** -/
theorem read_pretty {v : Json} (h : v.Representable) : read v.pretty = some v := by
  have htext : v.pretty.toList = (spread 0 v).toList ++ ['\n'] := String.toList_append
  have hread := reads_spread h 0 (2 * v.pretty.toList.length + 2) ['\n']
    (by rw [htext, List.length_append]; omega) (stops_cons (by decide) _)
  rw [← htext] at hread
  rw [read]
  simp only [hread]
  rfl

end DesignTokens.Json
