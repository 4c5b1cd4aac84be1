import DesignTokens.Proofs.Document.Stylesheet
import DesignTokens.Proofs.Extract.Sites
import DesignTokens.Proofs.Source.Read
import Mathlib.Algebra.Group.Nat.Defs

/-!
# Models of sources are well typed

Documents leave out entries of a kind that they do not expect, and they write values without a mark
of their kind. Both is safe because the model of a source has in each category only values of
certain kinds, under keys from which the kind can be told. The rules see to that: what they capture
is narrow enough for the readers of values, so that no color of a source is ever malformed.
-/

namespace DesignTokens

/-! ## Normal colors and amounts -/

/-- A hash sign and upper-case hex digits: six of them, or eight of which the last two are not those
of an opaque color. -/
def IsNormalColor (s : List Char) : Prop :=
  ∃ digits, s = '#' :: digits ∧
    (digits.length = 6 ∨ digits.length = 8 ∧ ¬ ['F', 'F'] <:+ digits) ∧
    ∀ c ∈ digits, Text.isAsciiDigit c = true ∨ (65 ≤ c.toNat ∧ c.toNat ≤ 70)

/-- A finite number that is not negative. -/
structure Binary64.IsAmount (x : Binary64) : Prop where
  finite : x.isFinite = true
  unsigned : x.negative = false

theorem HexColor.isNormalColor_value (x : HexColor) : IsNormalColor x.value.toList := by
  have hupper : ∀ t : List Char, (∀ c ∈ t, c ∈ x.alpha ++ x.rgb) →
      ∀ c ∈ t.map Capture.upperHex,
        Text.isAsciiDigit c = true ∨ (65 ≤ c.toNat ∧ c.toNat ≤ 70) := by
    intro t ht c hc
    obtain ⟨d, hd, rfl⟩ := List.mem_map.1 hc
    exact Stylesheet.upperHex_of_isHexDigit (x.hex d (ht d hd))
  have halpha := hupper x.alpha fun c hc => List.mem_append_left x.rgb hc
  have hrgb := hupper x.rgb fun c hc => List.mem_append_right x.alpha hc
  have hlength : (x.rgb.map Capture.upperHex).length = 6 := by rw [List.length_map, x.rgb_length]
  have hlength' : (x.alpha.map Capture.upperHex).length = 0 ∨
      (x.alpha.map Capture.upperHex).length = 2 := by rw [List.length_map]; exact x.alpha_length
  generalize hrgb' : x.rgb.map Capture.upperHex = rgb at hrgb hlength
  generalize halpha' : x.alpha.map Capture.upperHex = alpha at halpha hlength'
  refine ⟨rgb ++ if alpha = ['F', 'F'] then [] else alpha, ?_, ?_, ?_⟩
  · simp only [value, hrgb', halpha', String.toList_ofList]
  · split
    · exact .inl (by rw [List.append_nil, hlength])
    · rename_i hopaque
      rcases hlength' with hnone | htwo
      · exact .inl (by rw [List.length_append, hlength, hnone])
      · refine .inr ⟨by rw [List.length_append, hlength, htwo], fun hsuffix => hopaque ?_⟩
        -- two suffixes of one length are equal
        have hsame : alpha <:+ rgb ++ alpha := List.suffix_append rgb alpha
        have hle := List.suffix_of_suffix_length_le hsuffix hsame (by rw [htwo]; rfl)
        exact (hle.eq_of_length (by rw [htwo]; rfl)).symm
  · intro c hc
    rcases List.mem_append.1 hc with hc | hc
    · exact hrgb c hc
    · split at hc
      · cases hc
      · exact halpha c hc

namespace Capture

theorem exists_hexColor {raw : List Char} (hall : ∀ c ∈ raw, Text.isHexDigit c = true)
    (hlen : raw.length = 6 ∨ raw.length = 8) : ∃ x : HexColor, x.chars = raw :=
  ⟨{  alpha := raw.take (raw.length - 6)
      rgb := raw.drop (raw.length - 6)
      alpha_length := by rw [List.length_take]; omega
      rgb_length := by rw [List.length_drop]; omega
      hex := by rwa [List.take_append_drop] }, List.take_append_drop _ raw⟩

/-- Only six or eight hex digits are read as a color. -/
theorem digits_of_readColor {raw : List Char} {hex : String} (h : readColor raw = some hex) :
    (raw.length = 6 ∨ raw.length = 8) ∧ ∀ c ∈ raw, Text.isHexDigit c = true := by
  rw [← List.length_map (f := upperHex)]
  unfold readColor at h
  split at h
  · rename_i hall
    refine ⟨?_, List.all_eq_true.1 hall⟩
    split at h
    · rename_i hdigits
      rw [hdigits]
      exact .inl rfl
    · rename_i hdigits
      rw [hdigits]
      exact .inr rfl
    · cases h
  · cases h

theorem isNormalColor_of_readColor {raw : List Char} {hex : String}
    (h : readColor raw = some hex) : IsNormalColor hex.toList := by
  obtain ⟨hlen, hall⟩ := digits_of_readColor h
  obtain ⟨x, rfl⟩ := exists_hexColor hall hlen
  rw [readColor_hex] at h
  cases h
  exact x.isNormalColor_value

theorem readColor_ne_none {raw : List Char} (hall : ∀ c ∈ raw, Text.isHexDigit c = true)
    (hlen : raw.length = 6 ∨ raw.length = 8) : readColor raw ≠ none := by
  obtain ⟨x, rfl⟩ := exists_hexColor hall hlen
  rw [readColor_hex]
  exact Option.some_ne_none _

theorem isFinite_of_readSigned {raw : List Char} {x : Binary64} (h : readSigned raw = some x) :
    x.isFinite = true := by
  unfold readSigned at h
  split at h
  · obtain ⟨y, hy, rfl⟩ := Option.map_eq_some_iff.1 h
    rw [Binary64.isFinite_neg]
    exact isFinite_of_readNumber hy
  · exact isFinite_of_readNumber h

theorem isFinite_of_readOffset {raw : List Char} {o : Offset} (h : readOffset raw = some o) :
    o.x.isFinite = true ∧ o.y.isFinite = true := by
  unfold readOffset at h
  split at h
  · obtain ⟨x, hx, h⟩ := Option.bind_eq_some_iff.1 h
    obtain ⟨y, hy, h⟩ := Option.bind_eq_some_iff.1 h
    cases h
    exact ⟨isFinite_of_readSigned hx, isFinite_of_readSigned hy⟩
  · cases h

theorem lt_of_readMilliseconds {raw : List Char} {n : Nat} (h : readMilliseconds raw = some n) :
    n < 2 ^ 64 := by
  simp only [readMilliseconds] at h
  split at h
  · split at h
    · rename_i hsmall
      cases h
      exact hsmall
    · cases h
  · cases h

end Capture

/-! ## Sound values and the keys that they stand under -/

/-- The parts of a shadow that are there are finite, and only an offset has signs. -/
structure Shadow.Sound (s : Shadow) : Prop where
  blurRadius : ∀ x ∈ s.blurRadius, x.IsAmount
  offset : ∀ o ∈ s.offset, o.x.isFinite = true ∧ o.y.isFinite = true
  alpha : ∀ x ∈ s.alpha, x.IsAmount

/-- A value that is well formed for its kind. -/
def TokenValue.Sound : TokenValue → Prop
  | color hex => IsNormalColor hex.toList
  | gradient stops => ∀ s ∈ stops, IsNormalColor s.toList
  | number x => x.IsAmount
  | integer n => n < 2 ^ 64
  | symbol word => Text.IsName word.toList
  | shadow s => s.Sound

/-- The kinds of values of each category, and the keys that they stand under. -/
inductive Belongs : Category → String → TokenValue → Prop
  | color {name hex : String} : Belongs .colors name (.color hex)
  | gradient {name : String} {stops : List String} :
      Belongs .colors (name ++ "_gradient") (.gradient stops)
  | typeMetric {name : String} {x : Binary64} : Belongs .typography name (.number x)
  | fontWeight {name word : String} :
      Belongs .typography (name ++ "_fontWeight") (.symbol word)
  | spacing {name : String} {x : Binary64} (h : startsWithAny claimedStarts name = false) :
      Belongs .spacing name (.number x)
  | shadow {name : String} {s : Shadow} : Belongs .shadows name (.shadow s)
  | duration {name : String} {n : Nat} : Belongs .animations (name ++ "_duration") (.integer n)
  | curve {name word : String} : Belongs .animations (name ++ "_curve") (.symbol word)
  | border {name : String} {x : Binary64} (h : startsWithAny borderStarts name = true) :
      Belongs .borders name (.number x)

/-- An entry of a category is well typed: its key is a word, its value is well formed, and the
category has such values under such keys. -/
structure WellTyped (c : Category) (name : String) (value : TokenValue) : Prop where
  key : Text.IsName name.toList
  sound : value.Sound
  belongs : Belongs c name value

namespace Admissible

variable {c : Category} {name : String} {value : TokenValue}

theorem isName (h : Admissible c name value) : Text.IsName name.toList := by
  have hending {base ending : String} (hbase : Text.IsName base.toList)
      (hword : ending.toList.all Text.isWord = true) : Text.IsName (base ++ ending).toList := by
    rw [String.toList_append]
    exact hbase.append (List.all_eq_true.1 hword)
  cases h with
  | color hname | scale hname | shadow hname => exact hname
  | gradient hname | fontSize hname | fontWeight hname | duration hname | curve hname =>
    exact hending hname (by decide)

theorem belongs (h : Admissible c name value) : Belongs c name value := by
  cases h with
  | color => exact .color
  | gradient => exact .gradient
  | @scale _ _ _ guard _ _ _ hc hguard =>
    simp only [scales, List.mem_cons, Prod.mk.injEq, List.not_mem_nil, or_false] at hc
    obtain ⟨rfl, -⟩ | ⟨rfl, rfl⟩ | ⟨rfl, rfl⟩ := hc
    · exact .typeMetric
    · exact .spacing (by simpa [NameGuard.accepts] using hguard)
    · exact .border hguard
  | fontSize => exact .typeMetric
  | fontWeight => exact .fontWeight
  | shadow => exact .shadow
  | duration => exact .duration
  | curve => exact .curve

end Admissible

/-! ## What the patterns capture -/

namespace Detail

theorem hex_of_mem_findAll {body raw : List Char} (h : raw ∈ findAll gradientStop body) :
    (∀ c ∈ raw, Text.isHexDigit c = true) ∧ (raw.length = 6 ∨ raw.length = 8) := by
  obtain ⟨o, ho, rfl⟩ := List.mem_map.1 h
  obtain ⟨t, -, -, ht⟩ := Pattern.takes_of_mem_occurrences ho
  rw [gradientStop_eq] at ht
  obtain ⟨u, -, hu⟩ := Pattern.takes_preceded ht
  have hexactly {n : Nat} {t : List Char} {gs : List (Option (List Char))}
      (ht : (Pattern.exactly .hex n).Takes t gs) :
      (∀ c ∈ t, Text.isHexDigit c = true) ∧ t.length = n := by
    cases ht with
    | exactly hk hl => exact ⟨fun c hc => CharClass.has_hex c ▸ hk c hc, hl⟩
  generalize o.groups = gs at hu
  cases hu with
  | seq hdigits hclose =>
    cases hdigits with
    | group hdigits =>
      cases hdigits with
      | former h8 =>
        obtain ⟨hall, hlen⟩ := hexactly h8
        exact ⟨hall, .inr hlen⟩
      | latter h6 =>
        obtain ⟨hall, hlen⟩ := hexactly h6
        exact ⟨hall, .inl hlen⟩

theorem takes_word {t : List Char} {gs : List (Option (List Char))}
    (h : (Pattern.group (.run (.of .word) 1)).Takes t gs) : gs = [some t] ∧ Text.IsName t := by
  cases h with
  | group h =>
    cases h with
    | run hk hl =>
      refine ⟨rfl, List.ne_nil_of_length_pos hl, fun c hc => ?_⟩
      have hword := hk c hc
      rw [CharClass.has_of] at hword
      exact hword

theorem isName_of_find?_fontWeight {body raw : List Char} (h : find? fontWeight body = some raw) :
    Text.IsName raw := by
  obtain ⟨t, gs, ht, rfl⟩ := takes_of_find? h
  rw [fontWeight_eq] at ht
  obtain ⟨u, hu⟩ := Pattern.takes_keyed ht
  cases hu with
  | seq hclass hword =>
    obtain ⟨rfl, hname⟩ := takes_word hword
    -- the name of the class in front of the word has no group of its own
    have hnone : ∀ {t gs}, (Pattern.either (.preceded "FontWeight".toList (.one (.only '.')))
        .empty).Takes t gs → gs = [] := by
      intro t gs ht
      cases ht with
      | former h =>
        obtain ⟨_, -, h⟩ := Pattern.takes_preceded h
        cases h
        rfl
      | latter h =>
        cases h
        rfl
    rw [hnone hclass]
    exact hname

end Detail

/-! ## Bindings and warnings of hits -/

namespace RuleDefinition

theorem value_of_hex {g : GetterRule} (hg : g ∈ standardGetters)
    (hs : g.definition.shape = .hex) :
    g.value = (PlainValue.color 8).pattern ∨ g.value = (PlainValue.color 6).pattern := by
  simp only [standardGetters, List.mem_cons, List.not_mem_nil, or_false] at hg
  rcases hg with rfl | rfl | rfl | rfl | rfl | rfl | rfl | rfl | rfl | rfl
  case inl => exact .inl rfl
  case inr.inl => exact .inr rfl
  all_goals cases hs

theorem value_of_curve {g : GetterRule} (hg : g ∈ standardGetters)
    (hs : g.definition.shape = .curve) : g.value = Pattern.curveValue := by
  simp only [standardGetters, List.mem_cons, List.not_mem_nil, or_false] at hg
  rcases hg with rfl | rfl | rfl | rfl | rfl | rfl | rfl | rfl | rfl | rfl
  case inr.inr.inr.inr.inr.inr.inr.inr.inl => rfl
  all_goals cases hs

end RuleDefinition

namespace Hit

variable {g : GetterRule} {h : Hit}

-- A color getter captures digits that can be read.
theorem Of.readColor_body (hof : h.Of g) (hg : g ∈ RuleDefinition.standardGetters)
    (hs : h.shape = .hex) : Capture.readColor h.body ≠ none := by
  have hcolor {count : Nat} (hcount : count = 6 ∨ count = 8)
      (hvalue : g.value = (PlainValue.color count).pattern) :
      Capture.readColor h.body ≠ none := by
    obtain ⟨t, gs, ht, hcaptures⟩ := hof.captures
    rw [hvalue] at ht
    obtain ⟨digits, rfl, -, hlen, hall⟩ := PlainValue.takes_inv ht
    have hbody : h.body = digits := by
      rw [body, hcaptures]
      exact String.toList_ofList
    rw [hbody]
    exact Capture.readColor_ne_none hall (hlen ▸ hcount)
  have hvalue := RuleDefinition.value_of_hex hg (hof.shape ▸ hs)
  exact hvalue.elim (hcolor (.inr rfl)) (hcolor (.inl rfl))

theorem Of.isName_body (hof : h.Of g) (hg : g ∈ RuleDefinition.standardGetters)
    (hs : h.shape = .curve) : Text.IsName h.body := by
  obtain ⟨t, gs, ht, hcaptures⟩ := hof.captures
  rw [RuleDefinition.value_of_curve hg (hof.shape ▸ hs)] at ht
  obtain ⟨u, -, hu⟩ := Pattern.takes_preceded ht
  obtain ⟨rfl, hname⟩ := Detail.takes_word hu
  have hbody : h.body = u := by
    rw [body, hcaptures]
    exact String.toList_ofList
  rw [hbody]
  exact hname

theorem PartMeans.isAmount {part : Pattern} {key : String} (hpart : part = .keyed key .amount)
    {code : LogCode} {message : String} {value : Option Binary64} {ws : List BuildWarning}
    (hm : h.PartMeans part Capture.readNumber code message value ws) :
    ∀ x ∈ value, x.IsAmount := by
  intro x hx
  rw [Option.mem_def.1 hx] at hm
  obtain ⟨hunsigned, hfinite⟩ := hm.number hpart
  exact ⟨hfinite, hunsigned⟩

theorem PartMeans.finite {part : Pattern} {code : LogCode} {message : String}
    {value : Option Offset} {ws : List BuildWarning}
    (hm : h.PartMeans part Capture.readOffset code message value ws) :
    ∀ o ∈ value, o.x.isFinite = true ∧ o.y.isFinite = true := by
  intro o ho
  rw [Option.mem_def.1 ho] at hm
  cases hm with
  | readable _ hr => exact Capture.isFinite_of_readOffset hr

/-- **What a hit binds is well formed.** -/
theorem Of.sound (hof : h.Of g) (hg : g ∈ RuleDefinition.standardGetters)
    {b : String × TokenValue} (hb : b ∈ h.bindings) : b.2.Sound := by
  have ha := hof.admissible hg hb
  have hm := h.means
  generalize h.bindings = bs at hm hb
  generalize h.warnings = ws at hm
  cases hm with
  | color _ hr =>
    rw [List.mem_singleton.1 hb]
    exact Capture.isNormalColor_of_readColor hr
  | gradient =>
    rw [List.mem_singleton.1 hb]
    intro stop hstop
    obtain ⟨raw, -, hr⟩ := List.mem_filterMap.1 hstop
    exact Capture.isNormalColor_of_readColor hr
  | number =>
    rw [List.mem_singleton.1 hb] at ha
    obtain ⟨-, hunsigned, hfinite⟩ := ha.number_inv
    rw [List.mem_singleton.1 hb]
    exact ⟨hfinite, hunsigned⟩
  | textStyle _ hsize =>
    rcases List.mem_append.1 hb with hb | hb
    · obtain ⟨x, hx, rfl⟩ := List.mem_map.1 hb
      exact hsize.isAmount Detail.fontSize_eq x (Option.mem_toList.1 hx)
    · obtain ⟨word, hword, rfl⟩ := List.mem_map.1 hb
      show Text.IsName (String.ofList word).toList
      rw [String.toList_ofList]
      exact Detail.isName_of_find?_fontWeight (Option.mem_toList.1 hword)
  | shadow _ hblur hoffset halpha =>
    rw [List.mem_singleton.1 hb]
    exact ⟨hblur.isAmount Detail.blurRadius_eq, hoffset.finite, halpha.isAmount Detail.alpha_eq⟩
  | duration _ hr =>
    rw [List.mem_singleton.1 hb]
    exact Capture.lt_of_readMilliseconds hr
  | curve hs =>
    rw [List.mem_singleton.1 hb]
    show Text.IsName (String.ofList h.body).toList
    rw [String.toList_ofList]
    exact hof.isName_body hg hs
  | malformedColor | malformedNumber | malformedDuration => cases hb

def complaintCodes : List LogCode := [.malformedNumber, .malformedDuration, .malformedOffset]

/-- **A hit never complains about a color.** What the rules capture of colors can always be read. -/
theorem Of.code_mem (hof : h.Of g) (hg : g ∈ RuleDefinition.standardGetters) :
    ∀ w ∈ h.warnings, w.code ∈ complaintCodes := by
  intro w hw
  have hm := h.means
  generalize h.bindings = bs at hm
  generalize h.warnings = ws at hm hw
  cases hm with
  | malformedColor hs hr => exact absurd hr (hof.readColor_body hg hs)
  | gradient _ hf =>
    obtain ⟨raw, hraw, -⟩ := List.mem_map.1 hw
    obtain ⟨hraw, hnone⟩ := List.mem_filter.1 hraw
    rw [← hf] at hraw
    obtain ⟨hall, hlen⟩ := Detail.hex_of_mem_findAll hraw
    exact absurd (of_decide_eq_true hnone) (Capture.readColor_ne_none hall hlen)
  | malformedNumber | malformedDuration =>
    rw [List.mem_singleton.1 hw]
    simp [complaint, complaintCodes]
  | textStyle _ hsize =>
    rw [hsize.code_eq hw]
    decide
  | shadow _ hblur hoffset halpha =>
    rcases List.mem_append.1 hw with hw | hw
    · rcases List.mem_append.1 hw with hw | hw
      · rw [hblur.code_eq hw]
        decide
      · rw [hoffset.code_eq hw]
        decide
    · rw [halpha.code_eq hw]
      decide
  | color | number | duration | curve => cases hw

end Hit

/-! ## Models of sources -/

namespace Library

theorem wellTyped_of_mem_table {source : String} {c : Category} {name : String}
    {value : TokenValue}
    (h : (name, value) ∈ ((standard.extract source).build.model.table c).entries) :
    WellTyped c name value := by
  have hadmissible := admissible_of_mem_table h
  have hsound : value.Sound := by
    rw [table_model_extract] at h
    obtain ⟨hit, hhit, hb⟩ := List.mem_flatMap.1 (TokenTable.mem_of_mem_ofBindings h)
    obtain ⟨g, hg, hof⟩ := Scan.of_mem_hits (List.mem_filter.1 hhit).1
    exact hof.sound hg hb
  exact ⟨hadmissible.isName, hsound, hadmissible.belongs⟩

theorem code_mem_of_mem_warnings {source : String} {w : BuildWarning}
    (h : w ∈ (standard.extract source).build.warnings) : w.code ∈ Hit.complaintCodes := by
  have hwarnings : (standard.extract source).build.warnings =
      (standard.scan source).hits.flatMap Hit.warnings := Build.warnings_ofHits _
  rw [hwarnings] at h
  obtain ⟨hit, hhit, hw⟩ := List.mem_flatMap.1 h
  obtain ⟨g, hg, hof⟩ := Scan.of_mem_hits hhit
  exact hof.code_mem hg w hw

/-- **The model of a source is well typed**, and what there is to complain about is a number, a
duration or an offset. -/
theorem wellTyped_extract (source : String) :
    (∀ c name value,
      (name, value) ∈ ((standard.extract source).build.model.table c).entries →
        WellTyped c name value) ∧
      ∀ w ∈ (standard.extract source).build.warnings, w.code.text ∈ ["W201", "W203", "W204"] := by
  refine ⟨fun c name value h => wellTyped_of_mem_table h, fun w hw => ?_⟩
  exact List.mem_map_of_mem (f := LogCode.text) (code_mem_of_mem_warnings hw)

end Library

end DesignTokens
