import DesignTokens.Json.Reader
import DesignTokens.Proofs.Extract.WellTyped

/-!
# Colors by their channels

A source writes a color with its alpha in front, a stylesheet with the alpha at the end, and both
leave out an alpha in their own way. What the digits mean is said here for each notation, as four
bytes. Reading a color changes the notation and nothing else, and it always gives the one normal
text that a color has in a stylesheet.
-/

namespace DesignTokens

/-- A color by its channels, each a byte. -/
structure Rgba where
  red : Nat
  green : Nat
  blue : Nat
  alpha : Nat
deriving DecidableEq, Repr

namespace Rgba

/-! ## Notations -/

/-- The byte of two hex digits, in either case. -/
def byte? (high low : Char) : Option Nat := do
  return 16 * (← Json.hexValue high) + (← Json.hexValue low)

/-- The bytes of an even number of hex digits. -/
def bytes? : List Char → Option (List Nat)
  | [] => some []
  | [_] => none
  | high :: low :: rest => do return (← byte? high low) :: (← bytes? rest)

/-- The color of three bytes, which is opaque, or of four with the alpha in front. -/
def alphaFirst? : List Nat → Option Rgba
  | [r, g, b] => some ⟨r, g, b, 255⟩
  | [a, r, g, b] => some ⟨r, g, b, a⟩
  | _ => none

/-- The color of three bytes, which is opaque, or of four with the alpha at the end. -/
def alphaLast? : List Nat → Option Rgba
  | [r, g, b] => some ⟨r, g, b, 255⟩
  | [r, g, b, a] => some ⟨r, g, b, a⟩
  | _ => none

/-- The color that a source means by `RRGGBB` or `AARRGGBB`. -/
def ofSource? (digits : List Char) : Option Rgba :=
  (bytes? digits).bind alphaFirst?

/-- The color that a stylesheet means by `#RRGGBB` or `#RRGGBBAA`. -/
def ofStylesheet? : List Char → Option Rgba
  | '#' :: digits => (bytes? digits).bind alphaLast?
  | _ => none

/-! ## Hex digits -/

theorem isSome_hexValue (c : Char) : (Json.hexValue c).isSome = Text.isHexDigit c := by
  rw [Bool.eq_iff_iff]
  simp only [Text.isHexDigit, Bool.or_eq_true, Bool.and_eq_true, decide_eq_true_eq]
  unfold Json.hexValue
  split
  · simp [*]
  · split
    · simp [*]
    · split <;> simp [*]

theorem hexValue_upperHex (c : Char) : Json.hexValue (Capture.upperHex c) = Json.hexValue c := by
  by_cases h : 97 ≤ c.toNat ∧ c.toNat ≤ 102
  · have hall : ∀ n < 103, 97 ≤ n → Json.hexValue (Capture.upperHex (Char.ofNat n)) =
        Json.hexValue (Char.ofNat n) := by
      decide
    have hc := hall c.toNat (by omega) h.1
    rwa [Char.ofNat_toNat] at hc
  · rw [Capture.upperHex, if_neg h]

/-- A digit, or a letter from `A` to `F`. -/
def IsUpperHex (c : Char) : Prop :=
  Text.isAsciiDigit c = true ∨ (65 ≤ c.toNat ∧ c.toNat ≤ 70)

/-- Digits of one case are told apart by their values. -/
theorem eq_of_hexValue_eq {c d : Char} {n : Nat} (hc : IsUpperHex c) (hd : IsUpperHex d)
    (h : Json.hexValue c = some n) (h' : Json.hexValue d = some n) : c = d := by
  simp only [IsUpperHex, Text.isAsciiDigit, Bool.and_eq_true, decide_eq_true_eq] at hc hd
  simp only [Json.hexValue, Text.isAsciiDigit, Bool.and_eq_true, decide_eq_true_eq] at h h'
  rw [← Char.toNat_inj]
  grind

/-! ## Bytes -/

theorem byte?_eq_some_iff {high low : Char} {n : Nat} : byte? high low = some n ↔
    ∃ a b, Json.hexValue high = some a ∧ Json.hexValue low = some b ∧ 16 * a + b = n := by
  unfold byte?
  cases Json.hexValue high <;> cases Json.hexValue low <;> simp

theorem bytes?_cons_cons {high low : Char} {rest : List Char} {bs : List Nat} :
    bytes? (high :: low :: rest) = some bs ↔
      ∃ n ns, byte? high low = some n ∧ bytes? rest = some ns ∧ n :: ns = bs := by
  rw [bytes?]
  cases byte? high low <;> cases bytes? rest <;> simp

theorem bytes?_map_upperHex (s : List Char) : bytes? (s.map Capture.upperHex) = bytes? s := by
  induction s using bytes?.induct with
  | case1 => rfl
  | case2 => rfl
  | case3 high low rest ih =>
    have hbyte : byte? (Capture.upperHex high) (Capture.upperHex low) = byte? high low := by
      rw [byte?, hexValue_upperHex, hexValue_upperHex, byte?]
    rw [List.map_cons, List.map_cons, bytes?, hbyte, ih, bytes?]

theorem bytes?_append {s t : List Char} {bs cs : List Nat} (hs : bytes? s = some bs)
    (ht : bytes? t = some cs) : bytes? (s ++ t) = some (bs ++ cs) := by
  induction s using bytes?.induct generalizing bs with
  | case1 =>
    cases hs
    exact ht
  | case2 => cases hs
  | case3 high low rest ih =>
    obtain ⟨n, ns, hbyte, hrest, rfl⟩ := bytes?_cons_cons.1 hs
    exact bytes?_cons_cons.2 ⟨n, ns ++ cs, hbyte, ih hrest, rfl⟩

/-- Each byte has two digits. -/
theorem digits_of_bytes? {s : List Char} {bs : List Nat} (h : bytes? s = some bs) :
    s.length = 2 * bs.length ∧ ∀ c ∈ s, Text.isHexDigit c = true := by
  induction s using bytes?.induct generalizing bs with
  | case1 =>
    cases h
    exact ⟨rfl, nofun⟩
  | case2 => cases h
  | case3 high low rest ih =>
    obtain ⟨n, ns, hbyte, hrest, rfl⟩ := bytes?_cons_cons.1 h
    obtain ⟨a, b, ha, hb, -⟩ := byte?_eq_some_iff.1 hbyte
    obtain ⟨hlen, hall⟩ := ih hrest
    have hhigh : Text.isHexDigit high = true := by rw [← isSome_hexValue, ha]; rfl
    have hlow : Text.isHexDigit low = true := by rw [← isSome_hexValue, hb]; rfl
    refine ⟨by simp only [List.length_cons, hlen]; omega, ?_⟩
    simpa only [List.mem_cons, forall_eq_or_imp] using ⟨hhigh, hlow, hall⟩

theorem exists_bytes? {s : List Char} {k : Nat} (hlen : s.length = 2 * k)
    (hall : ∀ c ∈ s, Text.isHexDigit c = true) : ∃ bs, bytes? s = some bs ∧ bs.length = k := by
  have hsome : ∃ bs, bytes? s = some bs := by
    induction s using bytes?.induct generalizing k with
    | case1 => exact ⟨[], rfl⟩
    | case2 c =>
      rw [List.length_singleton] at hlen
      omega
    | case3 high low rest ih =>
      simp only [List.mem_cons, forall_eq_or_imp] at hall
      simp only [List.length_cons] at hlen
      obtain ⟨hhigh, hlow, hrest⟩ := hall
      obtain ⟨ns, hns⟩ := ih (k := k - 1) (by omega) hrest
      rw [← isSome_hexValue] at hhigh hlow
      obtain ⟨a, ha⟩ := Option.isSome_iff_exists.1 hhigh
      obtain ⟨b, hb⟩ := Option.isSome_iff_exists.1 hlow
      exact ⟨_, bytes?_cons_cons.2 ⟨_, ns, byte?_eq_some_iff.2 ⟨a, b, ha, hb, rfl⟩, hns, rfl⟩⟩
  obtain ⟨bs, hbs⟩ := hsome
  have hdigits := (digits_of_bytes? hbs).1
  exact ⟨bs, hbs, by omega⟩

theorem hexValue_lt {c : Char} {n : Nat} (h : Json.hexValue c = some n) : n < 16 := by
  simp only [Json.hexValue, Text.isAsciiDigit, Bool.and_eq_true, decide_eq_true_eq] at h
  grind

/-- Upper-case digits are told apart by the bytes that they make. -/
theorem eq_of_bytes?_eq {s t : List Char} {bs : List Nat} (hs : ∀ c ∈ s, IsUpperHex c)
    (ht : ∀ c ∈ t, IsUpperHex c) (h : bytes? s = some bs) (h' : bytes? t = some bs) : s = t := by
  induction s using bytes?.induct generalizing t bs with
  | case1 =>
    cases h
    have hlen := (digits_of_bytes? h').1
    exact (List.length_eq_zero_iff.1 hlen).symm
  | case2 => cases h
  | case3 high low rest ih =>
    obtain ⟨n, ns, hbyte, hrest, rfl⟩ := bytes?_cons_cons.1 h
    match t, h' with
    | high' :: low' :: rest', h' =>
      obtain ⟨n', ns', hbyte', hrest', heq⟩ := bytes?_cons_cons.1 h'
      cases heq
      obtain ⟨a, b, ha, hb, rfl⟩ := byte?_eq_some_iff.1 hbyte
      obtain ⟨a', b', ha', hb', hsum⟩ := byte?_eq_some_iff.1 hbyte'
      -- the two digits of a byte are its quotient and its remainder by sixteen
      have hlow := hexValue_lt hb
      have hlow' := hexValue_lt hb'
      obtain rfl : a' = a := by omega
      obtain rfl : b' = b := by omega
      simp only [List.mem_cons, forall_eq_or_imp] at hs ht
      rw [eq_of_hexValue_eq hs.1 ht.1 ha ha', eq_of_hexValue_eq hs.2.1 ht.2.1 hb hb',
        ih hs.2.2 ht.2.2 hrest hrest']

/-! ## Colors and their texts -/

theorem isSome_alphaFirst? (bs : List Nat) :
    (alphaFirst? bs).isSome = true ↔ bs.length = 3 ∨ bs.length = 4 := by
  unfold alphaFirst?
  split
  · simp
  · simp
  · rename_i h₃ h₄
    simp only [Option.isSome_none, Bool.false_eq_true, false_iff]
    rintro (h | h)
    · obtain ⟨r, g, b, rfl⟩ := List.length_eq_three.1 h
      exact h₃ r g b rfl
    · obtain ⟨a, r, g, b, rfl⟩ := List.length_eq_four.1 h
      exact h₄ a r g b rfl

/-- A source means a color exactly by six or eight hex digits. -/
theorem isSome_ofSource? (digits : List Char) : (ofSource? digits).isSome = true ↔
    (digits.length = 6 ∨ digits.length = 8) ∧ ∀ c ∈ digits, Text.isHexDigit c = true := by
  rw [ofSource?]
  constructor
  · intro h
    obtain ⟨x, hx⟩ := Option.isSome_iff_exists.1 h
    obtain ⟨bs, hbs, hcolor⟩ := Option.bind_eq_some_iff.1 hx
    obtain ⟨hlen, hall⟩ := digits_of_bytes? hbs
    have hbytes := (isSome_alphaFirst? bs).1 (by rw [hcolor]; rfl)
    exact ⟨by omega, hall⟩
  · rintro ⟨hlen, hall⟩
    obtain ⟨bs, hbs, hbytes⟩ := exists_bytes? (k := digits.length / 2) (by omega) hall
    rw [hbs, Option.bind_some, isSome_alphaFirst?]
    omega

/-- Reading puts the alpha elsewhere and leaves the color as it is. -/
theorem ofStylesheet?_value (x : HexColor) :
    ofStylesheet? x.value.toList = ofSource? x.chars := by
  obtain ⟨rgb, hrgb, hthree⟩ := exists_bytes? (k := 3) x.rgb_length
    fun c hc => x.hex c (List.mem_append_right _ hc)
  obtain ⟨alpha, halpha, hone⟩ := exists_bytes? (s := x.alpha) (k := x.alpha.length / 2)
    (by rcases x.alpha_length with h | h <;> omega)
    fun c hc => x.hex c (List.mem_append_left _ hc)
  obtain ⟨r, g, b, rfl⟩ := List.length_eq_three.1 hthree
  have hrgb' := (bytes?_map_upperHex x.rgb).trans hrgb
  have halpha' := (bytes?_map_upperHex x.alpha).trans halpha
  have hsource : ofSource? x.chars = alphaFirst? (alpha ++ [r, g, b]) := by
    rw [ofSource?, HexColor.chars, bytes?_append halpha hrgb, Option.bind_some]
  rw [hsource, HexColor.value, String.toList_ofList, ofStylesheet?]
  split
  · -- an opaque alpha is left out
    rename_i hfull
    rw [hfull] at halpha'
    cases halpha'
    rw [List.append_nil, hrgb']
    rfl
  · rw [bytes?_append hrgb' halpha']
    rcases x.alpha_length with hlen | hlen
    · rw [List.length_eq_zero_iff.1 hlen] at halpha
      cases halpha
      rfl
    · rw [hlen] at hone
      obtain ⟨a, rfl⟩ := List.length_eq_one_iff.1 hone
      rfl

theorem ofStylesheet?_eq_some {s : List Char} {x : Rgba} (h : ofStylesheet? s = some x) :
    ∃ digits bs, s = '#' :: digits ∧ bytes? digits = some bs ∧ alphaLast? bs = some x := by
  unfold ofStylesheet? at h
  split at h
  · rename_i digits
    obtain ⟨bs, hbs, hx⟩ := Option.bind_eq_some_iff.1 h
    exact ⟨digits, bs, rfl, hbs, hx⟩
  · cases h

/-- The bytes of a color, with those of an opaque one completed. -/
theorem bytes_of_alphaLast? {bs : List Nat} {x : Rgba} (h : alphaLast? bs = some x) :
    bs = [x.red, x.green, x.blue, x.alpha] ∨
      bs = [x.red, x.green, x.blue] ∧ x.alpha = 255 := by
  unfold alphaLast? at h
  split at h
  · cases h
    exact .inr ⟨rfl, rfl⟩
  · cases h
    exact .inl rfl
  · cases h

/-- Digits with an opaque alpha behind those of a color are not the normal ones. -/
theorem suffix_of_fullAlpha {s t : List Char} {bs : List Nat} (hs : ∀ c ∈ s, IsUpperHex c)
    (ht : ∀ c ∈ t, IsUpperHex c) (h : bytes? s = some bs) (h' : bytes? t = some (bs ++ [255])) :
    ['F', 'F'] <:+ t := by
  have hupper : ∀ c ∈ s ++ ['F', 'F'], IsUpperHex c := by
    intro c hc
    rcases List.mem_append.1 hc with hc | hc
    · exact hs c hc
    · obtain rfl : c = 'F' := by simpa using hc
      exact .inr (by decide)
  have hfull : bytes? ['F', 'F'] = some [255] := by decide
  exact ⟨s, eq_of_bytes?_eq hupper ht (bytes?_append h hfull) h'⟩

/-- A color has one normal text. -/
theorem eq_of_ofStylesheet?_eq {s t : List Char} {x : Rgba} (hs : IsNormalColor s)
    (ht : IsNormalColor t) (h : ofStylesheet? s = some x) (h' : ofStylesheet? t = some x) :
    s = t := by
  obtain ⟨digits, bs, rfl, hbs, hx⟩ := ofStylesheet?_eq_some h
  obtain ⟨digits', bs', rfl, hbs', hx'⟩ := ofStylesheet?_eq_some h'
  obtain ⟨_, heq, hlength, hupper⟩ := hs
  cases heq
  obtain ⟨_, heq, hlength', hupper'⟩ := ht
  cases heq
  have hlen := (digits_of_bytes? hbs).1
  have hlen' := (digits_of_bytes? hbs').1
  rcases bytes_of_alphaLast? hx with rfl | ⟨rfl, hfull⟩ <;>
    rcases bytes_of_alphaLast? hx' with rfl | ⟨rfl, hfull'⟩
  · rw [eq_of_bytes?_eq hupper hupper' hbs hbs']
  · rw [hfull'] at hbs
    rcases hlength with hsix | ⟨-, hnormal⟩
    · rw [hsix] at hlen
      cases hlen
    · exact absurd (suffix_of_fullAlpha hupper' hupper hbs' hbs) hnormal
  · rw [hfull] at hbs'
    rcases hlength' with hsix | ⟨-, hnormal⟩
    · rw [hsix] at hlen'
      cases hlen'
    · exact absurd (suffix_of_fullAlpha hupper hupper' hbs hbs') hnormal
  · rw [eq_of_bytes?_eq hupper hupper' hbs hbs']

end Rgba

/-! ## Reading colors -/

namespace Capture

theorem exists_readColor_of_ofSource? {raw : List Char} {x : Rgba}
    (h : Rgba.ofSource? raw = some x) :
    ∃ hex, readColor raw = some hex ∧ IsNormalColor hex.toList ∧
      Rgba.ofStylesheet? hex.toList = some x := by
  obtain ⟨hlen, hall⟩ := (Rgba.isSome_ofSource? raw).1 (by rw [h]; rfl)
  obtain ⟨color, rfl⟩ := exists_hexColor hall hlen
  exact ⟨_, readColor_hex color, color.isNormalColor_value,
    (Rgba.ofStylesheet?_value color).trans h⟩

/-- What is read of a color is its normal text. -/
theorem readColor_eq_some_iff {raw : List Char} {hex : String} : readColor raw = some hex ↔
    IsNormalColor hex.toList ∧ ∃ x, Rgba.ofSource? raw = some x ∧
      Rgba.ofStylesheet? hex.toList = some x := by
  constructor
  · intro h
    have hsource := (Rgba.isSome_ofSource? raw).2 (digits_of_readColor h)
    obtain ⟨x, hx⟩ := Option.isSome_iff_exists.1 hsource
    obtain ⟨hex', hread, hnormal, hcolor⟩ := exists_readColor_of_ofSource? hx
    rw [h] at hread
    cases hread
    exact ⟨hnormal, x, hx, hcolor⟩
  · rintro ⟨hnormal, x, hsource, hcolor⟩
    obtain ⟨hex', hread, hnormal', hcolor'⟩ := exists_readColor_of_ofSource? hsource
    rw [hread, ← String.toList_inj.1 (Rgba.eq_of_ofStylesheet?_eq hnormal hnormal' hcolor hcolor')]

theorem readColor_eq_none_iff {raw : List Char} :
    readColor raw = none ↔ Rgba.ofSource? raw = none := by
  constructor
  · intro hread
    by_contra hsource
    obtain ⟨x, hx⟩ := Option.ne_none_iff_exists'.1 hsource
    obtain ⟨hex, hsome, -⟩ := exists_readColor_of_ofSource? hx
    rw [hread] at hsome
    cases hsome
  · intro hsource
    by_contra hread
    obtain ⟨hex, hsome⟩ := Option.ne_none_iff_exists'.1 hread
    obtain ⟨-, x, hx, -⟩ := readColor_eq_some_iff.1 hsome
    rw [hsource] at hx
    cases hx

/-- Texts are read alike exactly if they mean the same. -/
theorem readColor_eq_iff (raw raw' : List Char) :
    readColor raw = readColor raw' ↔ Rgba.ofSource? raw = Rgba.ofSource? raw' := by
  cases hx : Rgba.ofSource? raw with
  | none => rw [readColor_eq_none_iff.2 hx, eq_comm, readColor_eq_none_iff, eq_comm]
  | some x =>
    obtain ⟨hex, hread, hnormal, hcolor⟩ := exists_readColor_of_ofSource? hx
    rw [hread]
    constructor
    · intro heq
      obtain ⟨-, x', hx', hcolor'⟩ := readColor_eq_some_iff.1 heq.symm
      rw [hx', ← hcolor', hcolor]
    · intro heq
      exact (readColor_eq_some_iff.2 ⟨hnormal, x, heq.symm, hcolor⟩).symm

/-- **Colors keep their meaning.** What is read are six or eight hex digits, in either case. The
result is the normal text of the color that they mean, so two texts give the same one exactly if
they mean the same color. -/
theorem readColor_keeps_color (raw : List Char) :
    ((readColor raw).isSome = true ↔
      (raw.length = 6 ∨ raw.length = 8) ∧ ∀ c ∈ raw, Text.isHexDigit c = true) ∧
    (∀ hex, readColor raw = some hex ↔ IsNormalColor hex.toList ∧
      ∃ x, Rgba.ofSource? raw = some x ∧ Rgba.ofStylesheet? hex.toList = some x) ∧
    ∀ raw', readColor raw = readColor raw' ↔ Rgba.ofSource? raw = Rgba.ofSource? raw' := by
  refine ⟨?_, fun _ => readColor_eq_some_iff, readColor_eq_iff raw⟩
  rw [← Rgba.isSome_ofSource?, Option.isSome_iff_ne_none, Option.isSome_iff_ne_none]
  exact not_congr readColor_eq_none_iff

example : readColor "1affffff".toList = some "#FFFFFF1A" ∧
    readColor "ffABcdEF".toList = readColor "ABCDEF".toList := by decide

end Capture

end DesignTokens
