import DesignTokens.Document.Stylesheet
import DesignTokens.Proofs.Extract.Admissible
import DesignTokens.Proofs.Pattern.First
import Mathlib.Data.List.Nodup

/-!
# Reading a stylesheet back

A stylesheet is read line by line: what stands between the dashes and the first colon is the
property, and what stands between that and the semicolon at the end is the value. For the model of
a source this gives exactly the declarations that were written, and these show the colors, the
spacings and the font sizes of the model one for one. Nothing in a source can break a line, end a
value or close the rule early.
-/

namespace DesignTokens

namespace Stylesheet

/-! ## The reader -/

def readLine? : List Char → Option Declaration
  | ' ' :: ' ' :: '-' :: '-' :: rest =>
    match rest.dropWhile (· ≠ ':') with
    | ':' :: ' ' :: tail =>
      if tail.getLast? = some ';' then
        some ⟨String.ofList (rest.takeWhile (· ≠ ':')), String.ofList tail.dropLast⟩
      else none
    | _ => none
  | _ => none

/-- The declarations on lines up to the last one, which closes the rule. -/
def readLines? : List (List Char) → Option (List Declaration)
  | [['\x7d'], []] => some []
  | line :: lines => do return (← readLine? line) :: (← readLines? lines)
  | [] => none

/-- The declarations of a rule for the root element. -/
def read? (text : String) : Option (List Declaration) :=
  match text.toList.splitOn '\n' with
  | first :: lines => if first = ":root \x7b".toList then readLines? lines else none
  | [] => none

/-! ## Well-formed declarations -/

/-- A hash sign and six or eight upper-case hex digits. -/
def IsHexColor (s : List Char) : Prop :=
  ∃ digits, s = '#' :: digits ∧ (digits.length = 6 ∨ digits.length = 8) ∧
    ∀ c ∈ digits, Text.isAsciiDigit c = true ∨ (65 ≤ c.toNat ∧ c.toNat ≤ 70)

/-- A name without a character that means something in a stylesheet, and without white space. -/
structure IsPlainName (s : List Char) : Prop extends Text.IsName s where
  plain : ∀ c ∈ s, c ≠ '-' ∧ c ≠ ':' ∧ c ≠ ';' ∧ Text.isBlank c = false

/-- A color behind its name, or a length in pixels behind the name of a spacing or a size. -/
inductive Declaration.WellFormed : Declaration → Prop
  | color {name hex : String} (hname : IsPlainName name.toList) (hhex : IsHexColor hex.toList) :
      WellFormed ⟨"color-" ++ name, hex⟩
  | length {kind name number : String} (hkind : kind = "spacing-" ∨ kind = "font-size-")
      (hname : IsPlainName name.toList) (hnumber : UnsignedDecimal number.toList) :
      WellFormed ⟨kind ++ name, number ++ "px"⟩

/-- The declarations show a model: first the colors that are no gradients, then every spacing,
then the numbers of the typography whose names end as those of text styles do. -/
def Shows (m : TokenModel) (ds : List Declaration) : Prop :=
  ∃ (colors : List (String × String)) (spacings sizes : List (String × Binary64)),
    (m.colors.entries.filter fun e => e.2.color?.isSome) =
        colors.map (fun e => (e.1, .color e.2)) ∧
      m.spacing.entries = spacings.map (fun e => (e.1, .number e.2)) ∧
      (m.typography.entries.filter fun e =>
        "_fontSize".toList.isSuffixOf e.1.toList && e.2.number?.isSome) =
          sizes.map (fun e => (e.1 ++ "_fontSize", .number e.2)) ∧
      ds = colors.map (fun e => ⟨"color-" ++ e.1, e.2⟩)
        ++ spacings.map (fun e => ⟨"spacing-" ++ e.1, lengthText e.2⟩)
        ++ sizes.map (fun e => ⟨"font-size-" ++ e.1, lengthText e.2⟩)

theorem isPlainName {s : List Char} (h : Text.IsName s) : IsPlainName s where
  toIsName := h
  plain := by
    intro c hc
    have hword := h.word c hc
    refine ⟨?_, ?_, ?_, h.not_blank c hc⟩ <;> rintro rfl <;> exact absurd hword (by decide)

/-! ## What a color looks like -/

theorem upperHex_of_isHexDigit {c : Char} (h : Text.isHexDigit c = true) :
    Text.isAsciiDigit (Capture.upperHex c) = true ∨
      (65 ≤ (Capture.upperHex c).toNat ∧ (Capture.upperHex c).toNat ≤ 70) := by
  simp only [Text.isHexDigit, Text.isAsciiDigit, Bool.or_eq_true, Bool.and_eq_true,
    decide_eq_true_eq] at h
  simp only [Text.isAsciiDigit, Bool.and_eq_true, decide_eq_true_eq]
  unfold Capture.upperHex
  split
  · rename_i hlower
    have hvalid : (c.toNat - 32).isValidChar := .inl (by omega)
    have hnat : (Char.ofNat (c.toNat - 32)).toNat = c.toNat - 32 := by
      rw [Char.ofNat, dif_pos hvalid]
      rfl
    rw [hnat]
    omega
  · omega

-- A color that is read is a hash sign with upper-case hex digits.
theorem isHexColor_of_readColor {raw : List Char} {hex : String}
    (h : Capture.readColor raw = some hex) : IsHexColor hex.toList := by
  unfold Capture.readColor at h
  split at h
  · rename_i hall
    have hup : ∀ c ∈ raw.map Capture.upperHex,
        Text.isAsciiDigit c = true ∨ (65 ≤ c.toNat ∧ c.toNat ≤ 70) := by
      intro c hc
      rcases List.mem_map.1 hc with ⟨d, hd, rfl⟩
      exact upperHex_of_isHexDigit (List.all_eq_true.1 hall d hd)
    generalize raw.map Capture.upperHex = digits at h hup
    split at h
    · cases h
      exact ⟨_, by rw [String.toList_ofList], .inl rfl, hup⟩
    · split at h <;> cases h
      · exact ⟨_, by rw [String.toList_ofList], .inl rfl, fun c hc => hup c (by simp_all)⟩
      · exact ⟨_, by rw [String.toList_ofList], .inr rfl, fun c hc => hup c (by grind)⟩
    · cases h
  · cases h

/-! ## Reading what was written -/

namespace Declaration

/-- A line without its line feed. -/
def chars (d : Declaration) : List Char :=
  ' ' :: ' ' :: '-' :: '-' :: (d.property.toList ++ ':' :: ' ' :: (d.value.toList ++ [';']))

theorem toList_line (d : Declaration) : d.line.toList = d.chars ++ ['\n'] := by
  simp [line, chars, String.toList_append]

/-- What the reader needs: the property ends at its colon, and nothing breaks the line. -/
structure Readable (d : Declaration) : Prop where
  colon : ':' ∉ d.property.toList
  feed : '\n' ∉ d.chars

theorem WellFormed.readable {d : Declaration} (h : d.WellFormed) : d.Readable := by
  cases h with
  | @color name hex hname hhex =>
    rcases hhex with ⟨digits, hhex, -, hdigits⟩
    have hcolon : ':' ∉ name.toList := hname.not_mem (by decide)
    have hfeed : '\n' ∉ name.toList := hname.not_mem (by decide)
    have hfeed' : '\n' ∉ digits := fun hm => absurd (hdigits _ hm) (by decide)
    constructor <;> simp [chars, String.toList_append, *]
  | @length kind name number hkind hname hnumber =>
    have hcolon : ':' ∉ name.toList := hname.not_mem (by decide)
    have hfeed : '\n' ∉ name.toList := hname.not_mem (by decide)
    have hfeed' : '\n' ∉ number.toList := fun hm => absurd (hnumber.digit_or_point _ hm) (by decide)
    rcases hkind with rfl | rfl <;> constructor <;> simp [chars, String.toList_append, *]

end Declaration

theorem readLine?_chars {d : Declaration} (h : ':' ∉ d.property.toList) :
    readLine? d.chars = some d := by
  have hp : ∀ c ∈ d.property.toList, decide (c ≠ ':') = true := by
    intro c hc
    rw [decide_eq_true_eq]
    rintro rfl
    exact h hc
  have htake : (d.property.toList ++ ':' :: ' ' :: (d.value.toList ++ [';'])).takeWhile (· ≠ ':') =
      d.property.toList :=
    Pattern.takeWhile_append_stop hp (stops_cons (by decide) _)
  have hdrop : (d.property.toList ++ ':' :: ' ' :: (d.value.toList ++ [';'])).dropWhile (· ≠ ':') =
      ':' :: ' ' :: (d.value.toList ++ [';']) := by
    rw [List.dropWhile_append_of_pos hp]
    rfl
  simp only [Declaration.chars, readLine?, hdrop, htake]
  rw [if_pos List.getLast?_concat, List.dropLast_concat, String.ofList_toList, String.ofList_toList]

theorem readLines?_cons {d : Declaration} (h : d.Readable) (lines : List (List Char)) :
    readLines? (d.chars :: lines) = (readLines? lines).map (d :: ·) := by
  rw [readLines?, readLine?_chars h.colon]
  · cases readLines? lines <;> rfl
  · intro hline
    cases hline

theorem readLines?_lines {ds : List Declaration} (h : ∀ d ∈ ds, d.Readable) :
    readLines? ((ds.flatMap (·.line.toList) ++ ['\x7d', '\n']).splitOn '\n') = some ds := by
  induction ds with
  | nil => rfl
  | cons d ds ih =>
    have hd := h d List.mem_cons_self
    rw [List.flatMap_cons, Declaration.toList_line, List.append_assoc, List.append_assoc,
      List.singleton_append, List.splitOn_append_cons_self_of_not_mem hd.feed, readLines?_cons hd,
      ih fun e he => h e (List.mem_cons_of_mem d he)]
    rfl

/-- **A rule of readable declarations reads back.** -/
theorem read?_rule {ds : List Declaration} (h : ∀ d ∈ ds, d.Readable) :
    read? (rule ds) = some ds := by
  have htext : (rule ds).toList =
      ":root \x7b".toList ++ '\n' :: (ds.flatMap (·.line.toList) ++ ['\x7d', '\n']) := by
    rw [rule, String.toList_append, String.toList_append, String.toList_join, List.flatMap_map]
    rfl
  rw [read?, htext, List.splitOn_append_cons_self_of_not_mem (by decide)]
  show (if _ then _ else _) = _
  rw [if_pos rfl, readLines?_lines h]

/-! ## What is written of a model -/

section Projection

variable {α β : Type} {f : α → Option β} {g : β → α}

theorem filter_isSome_eq_map (h : ∀ a b, f a = some b → a = g b) (l : List α) :
    (l.filter fun a => (f a).isSome) = (l.filterMap f).map g := by
  induction l with
  | nil => rfl
  | cons a l ih =>
    rw [List.filter_cons, List.filterMap_cons, ih]
    cases ha : f a with
    | none => rfl
    | some b => rw [h a b ha]; rfl

theorem mem_of_mem_filterMap (h : ∀ a b, f a = some b → a = g b) {l : List α} {b : β}
    (hb : b ∈ l.filterMap f) : g b ∈ l := by
  rcases List.mem_filterMap.1 hb with ⟨a, ha, hab⟩
  rw [← h a b hab]
  exact ha

end Projection

theorem dropEnding?_eq_some {ending s t : String} (h : dropEnding? ending s = some t) :
    s = t ++ ending := by
  unfold dropEnding? at h
  split at h
  · rename_i hs
    rcases List.isSuffixOf_iff_suffix.1 hs with ⟨u, hu⟩
    cases h
    rw [← String.toList_inj, String.toList_append, String.toList_ofList, ← hu, List.length_append,
      Nat.add_sub_cancel, List.take_left]
  · cases h

theorem isSome_dropEnding? (ending s : String) :
    (dropEnding? ending s).isSome = ending.toList.isSuffixOf s.toList := by
  unfold dropEnding?
  split
  · rename_i hs
    rw [hs]
    rfl
  · rename_i hs
    rw [Bool.eq_false_iff.2 hs]
    rfl

/-- The color of an entry, with its name. -/
def colorOf? (e : String × TokenValue) : Option (String × String) :=
  e.2.color?.map (e.1, ·)

/-- The number of an entry, with its name. -/
def numberOf? (e : String × TokenValue) : Option (String × Binary64) :=
  e.2.number?.map (e.1, ·)

/-- The number of an entry that is a font size, with the name of its text style. -/
def fontSizeOf? (e : String × TokenValue) : Option (String × Binary64) := do
  return (← dropEnding? "_fontSize" e.1, ← e.2.number?)

theorem eq_of_colorOf? (e : String × TokenValue) (b : String × String) (h : colorOf? e = some b) :
    e = (b.1, .color b.2) := by
  rcases e with ⟨name, value⟩
  rcases Option.map_eq_some_iff.1 h with ⟨hex, hhex, rfl⟩
  cases value <;> cases hhex
  rfl

theorem eq_of_numberOf? (e : String × TokenValue) (b : String × Binary64)
    (h : numberOf? e = some b) : e = (b.1, .number b.2) := by
  rcases e with ⟨name, value⟩
  rcases Option.map_eq_some_iff.1 h with ⟨x, hx, rfl⟩
  cases value <;> cases hx
  rfl

theorem eq_of_fontSizeOf? (e : String × TokenValue) (b : String × Binary64)
    (h : fontSizeOf? e = some b) : e = (b.1 ++ "_fontSize", .number b.2) := by
  rcases e with ⟨name, value⟩
  rcases Option.bind_eq_some_iff.1 h with ⟨base, hbase, h⟩
  rcases Option.bind_eq_some_iff.1 h with ⟨x, hx, h⟩
  cases h
  have hname : name = base ++ "_fontSize" := dropEnding?_eq_some hbase
  cases value <;> cases hx
  rw [hname]

theorem isSome_fontSizeOf? (e : String × TokenValue) :
    (fontSizeOf? e).isSome = ("_fontSize".toList.isSuffixOf e.1.toList && e.2.number?.isSome) := by
  rw [← isSome_dropEnding?, fontSizeOf?]
  cases dropEnding? "_fontSize" e.1 <;> cases e.2.number? <;> rfl

theorem scalarColors_eq (m : TokenModel) :
    m.scalarColors = m.colors.entries.filterMap colorOf? := rfl

theorem spacingNumbers_eq (m : TokenModel) :
    m.spacingNumbers = m.spacing.entries.filterMap numberOf? := rfl

theorem fontSizes_eq (m : TokenModel) :
    fontSizes m = m.typography.entries.filterMap fontSizeOf? := rfl

-- The declarations of a model show it, if its spacings are numbers.
theorem shows_declarations {m : TokenModel}
    (h : ∀ e ∈ m.spacing.entries, (numberOf? e).isSome = true) : Shows m (declarations m) := by
  refine ⟨m.scalarColors, m.spacingNumbers, fontSizes m, ?_, ?_, ?_, rfl⟩
  · rw [scalarColors_eq, ← filter_isSome_eq_map eq_of_colorOf?]
    congr 1
    funext e
    exact (Option.isSome_map ..).symm
  · rw [spacingNumbers_eq, ← filter_isSome_eq_map eq_of_numberOf?]
    exact (List.filter_eq_self.2 h).symm
  · rw [fontSizes_eq, ← filter_isSome_eq_map eq_of_fontSizeOf?]
    congr 1
    funext e
    exact (isSome_fontSizeOf? e).symm

/-! ## Distinct properties -/

section Distinct

variable {α β : Type} {f : α → Option (String × β)} {name : α → String}

-- The names that are left of distinct names are distinct.
theorem nodup_of_filterMap (ending : String) (h : ∀ a b, f a = some b → name a = b.1 ++ ending)
    {l : List α} (hl : (l.map name).Nodup) : ((l.filterMap f).map (·.1)).Nodup := by
  have hsub : ((l.filterMap f).map fun b => b.1 ++ ending).Sublist (l.map name) := by
    clear hl
    induction l with
    | nil => exact .slnil
    | cons a l ih =>
      rw [List.filterMap_cons]
      cases ha : f a with
      | none => exact ih.cons _
      | some b =>
        rw [List.map_cons, List.map_cons, h a b ha]
        exact ih.cons_cons _
  have hnodup := hsub.nodup hl
  exact List.Nodup.of_map (· ++ ending) (by rw [List.map_map]; exact hnodup)

end Distinct

theorem nodup_map_append (kind : String) {names : List String} (h : names.Nodup) :
    (names.map (kind ++ ·)).Nodup :=
  h.map fun _ _ hab => (String.append_right_inj kind).1 hab

theorem head?_kind_append {kind : String} (hk : kind ≠ "") (rest : List Char) :
    (kind.toList ++ rest).head? = kind.toList.head? :=
  List.head?_append_of_ne_nil _ (by simpa using hk)

-- Properties of two kinds differ in their first characters.
theorem ne_of_mem_kinds {kind kind' : String} (hk : kind ≠ "") (hk' : kind' ≠ "")
    (h : kind.toList.head? ≠ kind'.toList.head?) {names names' : List String} :
    ∀ a ∈ names.map (kind ++ ·), ∀ b ∈ names'.map (kind' ++ ·), a ≠ b := by
  intro a ha b hb hab
  rcases List.mem_map.1 ha with ⟨n, -, rfl⟩
  rcases List.mem_map.1 hb with ⟨n', -, rfl⟩
  apply h
  have hhead := congrArg (fun s : String => s.toList.head?) hab
  simp only [String.toList_append] at hhead
  rw [head?_kind_append hk, head?_kind_append hk'] at hhead
  exact hhead

theorem nodup_properties {m : TokenModel} (hcolors : m.colors.names.Nodup)
    (hspacing : m.spacing.names.Nodup) (htypography : m.typography.names.Nodup) :
    ((declarations m).map (·.property)).Nodup := by
  have hc : (m.scalarColors.map (·.1)).Nodup := by
    rw [scalarColors_eq]
    exact nodup_of_filterMap ""
      (fun e b h => by rw [eq_of_colorOf? e b h, String.append_empty]) hcolors
  have hs : (m.spacingNumbers.map (·.1)).Nodup := by
    rw [spacingNumbers_eq]
    exact nodup_of_filterMap ""
      (fun e b h => by rw [eq_of_numberOf? e b h, String.append_empty]) hspacing
  have hf : ((fontSizes m).map (·.1)).Nodup := by
    rw [fontSizes_eq]
    exact nodup_of_filterMap "_fontSize" (fun e b h => by rw [eq_of_fontSizeOf? e b h]) htypography
  have hsplit : (declarations m).map (·.property) =
      (m.scalarColors.map (·.1)).map ("color-" ++ ·)
        ++ (m.spacingNumbers.map (·.1)).map ("spacing-" ++ ·)
        ++ ((fontSizes m).map (·.1)).map ("font-size-" ++ ·) := by
    simp [declarations, Function.comp_def]
  rw [hsplit, List.nodup_append, List.nodup_append]
  refine ⟨⟨nodup_map_append _ hc, nodup_map_append _ hs, ?_⟩, nodup_map_append _ hf, ?_⟩
  · exact ne_of_mem_kinds (by decide) (by decide) (by decide)
  · intro a ha
    rcases List.mem_append.1 ha with ha | ha
    · exact ne_of_mem_kinds (by decide) (by decide) (by decide) a ha
    · exact ne_of_mem_kinds (by decide) (by decide) (by decide) a ha

/-! ## The stylesheet of a source -/

theorem wellFormed_length {kind name : String} {x : Binary64}
    (hkind : kind = "spacing-" ∨ kind = "font-size-") (hname : Text.IsName name.toList)
    (hneg : x.negative = false) (hfin : x.isFinite = true) :
    Declaration.WellFormed ⟨kind ++ name, lengthText x⟩ :=
  .length hkind (isPlainName hname) (unsignedDecimal_text hneg hfin)

-- Declarations of a model with admissible entries are well formed.
theorem wellFormed_of_mem_declarations {m : TokenModel}
    (h : ∀ c name value, (name, value) ∈ (m.table c).entries → Admissible c name value)
    {d : Declaration} (hd : d ∈ declarations m) : d.WellFormed := by
  rcases List.mem_append.1 hd with hd | hd
  · rcases List.mem_append.1 hd with hd | hd
    · rcases List.mem_map.1 hd with ⟨b, hb, rfl⟩
      rcases (h .colors _ _ (mem_of_mem_filterMap eq_of_colorOf? hb)).color_inv
        with ⟨hname, raw, hread⟩
      exact .color (isPlainName hname) (isHexColor_of_readColor hread)
    · rcases List.mem_map.1 hd with ⟨b, hb, rfl⟩
      rcases (h .spacing _ _ (mem_of_mem_filterMap eq_of_numberOf? hb)).number_inv
        with ⟨hname, hneg, hfin⟩
      exact wellFormed_length (.inl rfl) hname hneg hfin
  · rcases List.mem_map.1 hd with ⟨b, hb, rfl⟩
    have hentry := h .typography _ _ (mem_of_mem_filterMap eq_of_fontSizeOf? hb)
    rcases hentry.number_inv with ⟨-, hneg, hfin⟩
    exact wellFormed_length (.inr rfl) hentry.base_fontSize hneg hfin

theorem rule_eq (ds : List Declaration) :
    rule ds = ":root \x7b\n"
      ++ String.join (ds.map fun d => "  --" ++ d.property ++ ": " ++ d.value ++ ";\n")
      ++ "\x7d\n" := by
  unfold rule
  rfl

-- The stylesheet of a model reads back, if its entries are admissible and its names distinct.
theorem read?_render {m : TokenModel}
    (hm : ∀ c name value, (name, value) ∈ (m.table c).entries → Admissible c name value)
    (hnodup : ∀ c, (m.table c).names.Nodup) (ctx : DocumentContext) :
    ∃ text ds, adapter.render m ctx = .ok text ∧
      text = ":root \x7b\n"
        ++ String.join (ds.map fun d => "  --" ++ d.property ++ ": " ++ d.value ++ ";\n")
        ++ "\x7d\n" ∧
      read? text = some ds ∧ (∀ d ∈ ds, d.WellFormed) ∧ (ds.map (·.property)).Nodup ∧
      Shows m ds := by
  have hwf : ∀ d ∈ declarations m, d.WellFormed := fun d => wellFormed_of_mem_declarations hm
  refine ⟨rule (declarations m), declarations m, rfl, rule_eq _,
    read?_rule fun d hd => (hwf d hd).readable, hwf,
    nodup_properties (hnodup .colors) (hnodup .spacing) (hnodup .typography), shows_declarations ?_⟩
  intro e he
  rcases (hm .spacing e.1 e.2 he).exists_number with ⟨x, hx⟩
  rw [numberOf?, hx]
  rfl

/-- **The stylesheet of a source reads back to what the model holds.** Its declarations are well
formed, no two are for one property, and they show the model. -/
theorem read?_render_extract (source : String) (ctx : DocumentContext) :
    ∃ text ds, adapter.render (Library.standard.extract source).build.model ctx = .ok text ∧
      text = ":root \x7b\n"
        ++ String.join (ds.map fun d => "  --" ++ d.property ++ ": " ++ d.value ++ ";\n")
        ++ "\x7d\n" ∧
      read? text = some ds ∧ (∀ d ∈ ds, d.WellFormed) ∧ (ds.map (·.property)).Nodup ∧
      Shows (Library.standard.extract source).build.model ds :=
  read?_render (fun _ _ _ => Library.admissible_of_mem_table)
    (Library.nodup_names_extract Library.standard source) ctx

end Stylesheet

end DesignTokens
