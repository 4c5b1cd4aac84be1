import DesignTokens.Proofs.Extract.Hits
import DesignTokens.Proofs.Extract.LineIndex
import DesignTokens.Proofs.Pattern.Everywhere
import DesignTokens.Proofs.Source.Calm

/-!
# Where getters stand

Six standard rules look for a getter whose value is one stretch of digits. What such a getter looks
like is said here without any pattern, and so is where it stands in a source. The rules report each
one that is there: no match hides another one, because a getter holds no start of another getter,
and text that is only half a getter is passed over without losing what stands behind it.
-/

namespace DesignTokens

/-! ## Values and rules -/

/-- How a value is written that is one stretch of digits. -/
inductive PlainValue where
  /-- A color of so many hex digits. -/
  | color (count : Nat)
  /-- A number, as far as its digits and points go. -/
  | number
  /-- Milliseconds, up to a closing bracket. -/
  | milliseconds

namespace PlainValue

def opening : PlainValue → List Char
  | color _ => "const Color(0x".toList
  | number => []
  | milliseconds => "const Duration(milliseconds: ".toList

def closing : PlainValue → List Char
  | color _ | milliseconds => [')']
  | number => []

/-- A decimal digit of any script, or a point. -/
def IsDecimal (c : Char) : Prop := Text.isDecimalDigit c = true ∨ c = '.'

instance (c : Char) : Decidable (IsDecimal c) := inferInstanceAs (Decidable (_ ∨ _))

/-- Some characters are the digits of a value, with `rest` behind it. Where nothing closes a value,
it goes as far as it can. -/
def Fits : PlainValue → List Char → List Char → Prop
  | color count, digits, _ =>
    digits.length = count ∧ ∀ c ∈ digits, Text.isHexDigit c = true
  | number, digits, rest =>
    digits ≠ [] ∧ (∀ c ∈ digits, IsDecimal c) ∧ ∀ c ∈ rest.head?, ¬ IsDecimal c
  | milliseconds, digits, _ => digits ≠ [] ∧ ∀ c ∈ digits, IsDecimal c

def pattern : PlainValue → Pattern
  | color count => .colorValue count
  | number => .amount
  | milliseconds => .durationValue

end PlainValue

/-- The standard rules for values that are one stretch of digits. -/
inductive PlainRule where
  | colorArgb
  | colorRgb
  | fontScale
  | spacingScale
  | borderScale
  | duration

namespace PlainRule

def definition : PlainRule → RuleDefinition
  | colorArgb => .colorArgb
  | colorRgb => .colorRgb
  | fontScale => .fontScale
  | spacingScale => .spacingScale
  | borderScale => .borderScale
  | duration => .duration

def keyword : PlainRule → String
  | colorArgb | colorRgb => "Color"
  | fontScale | spacingScale | borderScale => "double"
  | duration => "Duration"

def value : PlainRule → PlainValue
  | colorArgb => .color 8
  | colorRgb => .color 6
  | fontScale | spacingScale | borderScale => .number
  | duration => .milliseconds

def getter (r : PlainRule) : GetterRule := ⟨r.definition, r.keyword, r.value.pattern⟩

theorem keyword_mem (r : PlainRule) : r.keyword ∈ Pattern.keywords := by
  cases r <;> decide

theorem filter_standardGetters (r : PlainRule) :
    (RuleDefinition.standardGetters.filter fun g => g.definition.id = r.definition.id) =
      [r.getter] := by
  cases r <;> rfl

end PlainRule

/-! ## Sites -/

/-- A getter in a source: the text in front of it, its name and its digits. -/
structure Site where
  before : List Char
  name : List Char
  digits : List Char

namespace Site

/-- The number of bytes in front of the getter. -/
def offset (x : Site) : Nat := (String.ofList x.before).utf8ByteSize

def hit (r : PlainRule) (x : Site) : Hit where
  category := r.definition.category
  rule := r.definition.id
  shape := r.definition.shape
  name := String.ofList x.name
  captures := [String.ofList x.digits]
  line := 1 + x.before.count '\n'

end Site

namespace PlainRule

/-- The text of a getter. -/
def text (r : PlainRule) (name digits : List Char) : List Char :=
  r.keyword.toList ++ " get ".toList ++ name ++ " => ".toList ++ r.value.opening ++ digits
    ++ r.value.closing

/-- A getter of the rule stands in a source. -/
def Stands (r : PlainRule) (source : List Char) (x : Site) : Prop :=
  ∃ rest, source = x.before ++ r.text x.name x.digits ++ rest ∧ Text.IsName x.name ∧
    r.value.Fits x.digits rest

/-- The rule accepts the name of a getter. -/
def Accepts (r : PlainRule) (x : Site) : Prop :=
  r.definition.guard.accepts (String.ofList x.name) = true ∧
    (String.ofList x.name).utf8ByteSize ≤ 255

instance (r : PlainRule) (x : Site) : Decidable (r.Accepts x) :=
  inferInstanceAs (Decidable (_ ∧ _))

end PlainRule

/-! ## What the patterns of values take -/

namespace PlainValue

theorem has_decimal_iff {c : Char} : CharClass.decimal.has c = true ↔ IsDecimal c := by
  rw [CharClass.has_decimal, Bool.or_eq_true, beq_iff_eq]
  exact or_congr Iff.rfl (Char.toNat_inj (d := '.'))

theorem stops_decimal_iff {rest : List Char} :
    Stops CharClass.decimal.has rest ↔ ∀ c ∈ rest.head?, ¬ IsDecimal c := by
  simp only [Stops, ← has_decimal_iff, Bool.not_eq_true]

open Pattern

theorem takesFirst {v : PlainValue} {digits rest : List Char} (h : v.Fits digits rest) :
    v.pattern.TakesFirst (v.opening ++ (digits ++ v.closing)) [some digits] rest := by
  cases v with
  | color count =>
    have hhex : ∀ c ∈ digits, CharClass.hex.has c = true := by
      intro c hc
      rw [CharClass.has_hex]
      exact h.2 c hc
    exact takesFirst_preceded _ (takesFirst_seq
      (takesFirst_group (takesFirst_exactly hhex h.1 _)) (takesFirst_one (has_only_self ')') rest))
  | number =>
    have hall : ∀ c ∈ digits, CharClass.decimal.has c = true :=
      fun c hc => has_decimal_iff.2 (h.2.1 c hc)
    show amount.TakesFirst (digits ++ []) _ rest
    rw [List.append_nil]
    exact takesFirst_group (takesFirst_run hall (stops_decimal_iff.2 h.2.2)
      (List.length_pos_of_ne_nil h.1))
  | milliseconds =>
    have hall : ∀ c ∈ digits, CharClass.decimal.has c = true :=
      fun c hc => has_decimal_iff.2 (h.2 c hc)
    exact takesFirst_preceded _ (takesFirst_seq
      (takesFirst_group (takesFirst_whole hall (stops_cons (by decide) _)
        (List.length_pos_of_ne_nil h.1)))
      (takesFirst_one (has_only_self ')') rest))

/-- The digits of a value, whatever stands behind it. -/
def Holds : PlainValue → List Char → Prop
  | color count, digits => digits.length = count ∧ ∀ c ∈ digits, Text.isHexDigit c = true
  | number, digits | milliseconds, digits => digits ≠ [] ∧ ∀ c ∈ digits, IsDecimal c

theorem takes_inv {v : PlainValue} {t : List Char} {gs : List (Option (List Char))}
    (h : v.pattern.Takes t gs) :
    ∃ digits, gs = [some digits] ∧ t = v.opening ++ (digits ++ v.closing) ∧ v.Holds digits := by
  cases v with
  | color count =>
    rcases takes_preceded h with ⟨u, rfl, hu⟩
    cases hu with
    | seq hdigits hclose =>
      cases hclose with
      | one hc =>
        cases hdigits with
        | group hdigits =>
          cases hdigits with
          | exactly hk hl =>
            refine ⟨_, rfl, by rw [eq_of_has_only hc]; rfl, hl, fun c hc => ?_⟩
            rw [← CharClass.has_hex]
            exact hk c hc
  | number =>
    rcases takes_amount h with ⟨rfl, hall⟩
    cases h with
    | group h =>
      cases h with
      | run hk hl =>
        refine ⟨t, rfl, (List.append_nil t).symm, List.ne_nil_of_length_pos hl, fun c hc => ?_⟩
        exact has_decimal_iff.1 (hall c hc)
  | milliseconds =>
    rcases takes_preceded h with ⟨u, rfl, hu⟩
    cases hu with
    | seq hdigits hclose =>
      cases hclose with
      | one hc =>
        cases hdigits with
        | group hdigits =>
          cases hdigits with
          | whole hk hl =>
            refine ⟨_, rfl, by rw [eq_of_has_only hc]; rfl, List.ne_nil_of_length_pos hl,
              fun c hc => ?_⟩
            exact has_decimal_iff.1 (hk c hc)

-- A value can be made as long as possible, so that it fits what stands behind it.
theorem exists_fits {v : PlainValue} {digits : List Char} (h : v.Holds digits)
    (rest : List Char) : ∃ digits' rest', v.Fits digits' rest' ∧
      digits ++ v.closing ++ rest = digits' ++ v.closing ++ rest' := by
  cases v with
  | color count => exact ⟨digits, rest, h, rfl⟩
  | milliseconds => exact ⟨digits, rest, h, rfl⟩
  | number =>
    have hall : ∀ c ∈ digits, CharClass.decimal.has c = true :=
      fun c hc => has_decimal_iff.2 (h.2 c hc)
    have hsplit := List.takeWhile_append_dropWhile (p := CharClass.decimal.has) (l := rest)
    refine ⟨digits ++ rest.takeWhile CharClass.decimal.has,
      rest.dropWhile CharClass.decimal.has, ⟨?_, ?_, ?_⟩, ?_⟩
    · simp [h.1]
    · intro c hc
      rcases List.mem_append.1 hc with hc | hc
      · exact h.2 c hc
      · exact has_decimal_iff.1 (mem_takeWhile hc)
    · apply stops_decimal_iff.1
      intro c hc
      have hhead := List.head?_dropWhile_not CharClass.decimal.has rest
      rw [Option.mem_def.1 hc] at hhead
      exact hhead
    · show digits ++ [] ++ rest = _ ++ [] ++ _
      simp only [List.append_nil, List.append_assoc, hsplit]

end PlainValue

/-! ## A getter holds no start of another one -/

namespace PlainValue

theorem Holds.calm {v : PlainValue} {digits t : List Char} (h : v.Holds digits)
    (ht : t ⊆ digits) : Calm t := by
  have hcalm {P : Char → Prop} (hspace : ¬ P ' ') (hg : ¬ P 'g') (hall : ∀ c ∈ digits, P c) :
      Calm t :=
    calm_of_not_mem (fun hm => hspace (hall _ (ht hm)))
      fun hm => hg (hall _ (ht (List.mem_of_mem_head? hm)))
  cases v with
  | color count =>
    exact hcalm (P := fun c => Text.isHexDigit c = true) (by decide) (by decide) h.2
  | number | milliseconds => exact hcalm (by decide) (by decide) h.2

theorem calm_opening (v : PlainValue) : Calm (" => ".toList ++ v.opening) := by
  cases v with
  | color count =>
    show Calm (" => ".toList ++ "const Color(0x".toList)
    decide +kernel
  | number | milliseconds => decide +kernel

-- Behind the name all is calm up to a last character, which is a bracket or belongs to a number.
theorem Holds.exists_last {v : PlainValue} {digits : List Char} (h : v.Holds digits) :
    ∃ t c, " => ".toList ++ (v.opening ++ (digits ++ v.closing)) = t ++ [c] ∧
      Calm t ∧ (c = ')' ∨ IsDecimal c) := by
  have closed (hc : v.closing = [')']) :
      ∃ t c, " => ".toList ++ (v.opening ++ (digits ++ v.closing)) = t ++ [c] ∧
        Calm t ∧ (c = ')' ∨ IsDecimal c) := by
    have hcalm := calm_append v.calm_opening (h.calm (List.Subset.refl digits))
    refine ⟨_, ')', ?_, hcalm, .inl rfl⟩
    rw [hc, List.append_assoc, List.append_assoc]
  cases v with
  | color | milliseconds => exact closed rfl
  | number =>
    have hlast := List.dropLast_append_getLast h.1
    have hcalm := calm_append (calm_opening .number) (h.calm (List.dropLast_subset digits))
    refine ⟨_, digits.getLast h.1, ?_, hcalm, .inr (h.2 _ (List.getLast_mem h.1))⟩
    show _ ++ (_ ++ (digits ++ [])) = _
    rw [List.append_nil, List.append_assoc, List.append_assoc, hlast]

end PlainValue

namespace PlainRule

open Pattern PlainValue

theorem not_mem_lead (r : PlainRule) {c : Char} (hc : c = ')' ∨ IsDecimal c) :
    c ∉ lead r.keyword.toList := by
  have hall : (keywords.all fun keyword =>
      (lead keyword.toList).all fun c => decide ¬ (c = ')' ∨ IsDecimal c)) = true := by
    decide +kernel
  have hnone := List.all_eq_true.1 (List.all_eq_true.1 hall r.keyword r.keyword_mem)
  exact fun hm => of_decide_eq_true (hnone c hm) hc

def pattern (r : PlainRule) : Pattern := .getter r.keyword r.value.pattern

theorem lone_pattern (r : PlainRule) : r.pattern.Lone := by
  intro t gs rest ht
  obtain ⟨name, u, vs, -, hname, hu, rfl⟩ := takes_getter ht
  obtain ⟨digits, -, rfl, hdigits⟩ := takes_inv hu
  obtain ⟨tail, c, htail, hcalm, hc⟩ := hdigits.exists_last
  have hne : lead r.keyword.toList ≠ [] := by simp [lead]
  refine ⟨by simp [hne], ?_⟩
  rw [htail, ← List.append_assoc name, List.tail_append_of_ne_nil hne]
  apply clear_append
  · -- inside of the keyword and the word behind it
    intro k hk
    rw [List.length_tail] at hk
    rw [← List.drop_one, List.drop_drop]
    apply noWay_preceded
    apply not_prefix_of_apart
    exact apart_lead r.keyword_mem r.keyword_mem (by omega) (.inl (by omega))
  · exact clear_of_calm (r.not_mem_lead hc) _ (hname.not_mem (by decide)) hcalm rest

/-! ## Occurrences and sites -/

def occurrence (r : PlainRule) (x : Site) : Occurrence :=
  ⟨x.before.length, String.utf8Len x.before, (r.text x.name x.digits).length,
    [some x.name, some x.digits]⟩

theorem takesFirst_text (r : PlainRule) {name digits rest : List Char} (hname : Text.IsName name)
    (h : r.value.Fits digits rest) :
    r.pattern.TakesFirst (r.text name digits) [some name, some digits] rest := by
  have hword : ∀ c ∈ name, (CharClass.of .word).has c = true := by
    intro c hc
    rw [CharClass.has_of]
    exact hname.word c hc
  have hgetter := takesFirst_preceded (lead r.keyword.toList) (takesFirst_seq
    (takesFirst_group (takesFirst_whole hword (stops_cons (by decide) _)
      (List.length_pos_of_ne_nil hname.nonempty)))
    (takesFirst_preceded " => ".toList (takesFirst h)))
  have htext : r.text name digits = lead r.keyword.toList
      ++ (name ++ (" => ".toList ++ (r.value.opening ++ (digits ++ r.value.closing)))) := by
    simp only [text, lead, List.append_assoc]
  rw [htext]
  exact hgetter

theorem occurrenceAt?_of_stands {r : PlainRule} {source : List Char} {x : Site}
    (h : r.Stands source x) :
    r.pattern.occurrenceAt? .start source x.before.length = some (r.occurrence x) := by
  obtain ⟨rest, rfl, hname, hfits⟩ := h
  obtain ⟨m, hm, hw, hg, -⟩ := r.takesFirst_text hname hfits
  rw [occurrenceAt?, List.append_assoc, List.drop_left, List.take_left,
    matchAtStart_of_firstWay hm, Option.map_some, SearchPlace.occurrence, hw, hg]
  simp only [SearchPlace.past, SearchPlace.start, Nat.zero_add]
  rfl

theorem exists_stands_of_occurrenceAt? {r : PlainRule} {source : List Char} {k : Nat}
    {o : Occurrence} (hk : k < source.length)
    (h : r.pattern.occurrenceAt? .start source k = some o) :
    ∃ x, r.Stands source x ∧ o = r.occurrence x := by
  obtain ⟨m, hm, -⟩ := Option.map_eq_some_iff.1 h
  rw [matchAtStart_eq] at hm
  obtain ⟨t, n, hdrop, -, ht, -⟩ := takes_of_attempt _ hm
  obtain ⟨name, u, vs, -, hname, hu, rfl⟩ := takes_getter ht
  obtain ⟨digits, -, rfl, hdigits⟩ := takes_inv hu
  -- the match may end early, but then a longer value stands at the same place
  obtain ⟨digits', rest, hfits, hlonger⟩ := exists_fits hdigits n.rest
  have hstands : r.Stands source ⟨source.take k, name, digits'⟩ := by
    refine ⟨rest, ?_, hname, hfits⟩
    have hsource := List.take_append_drop k source
    rw [hdrop] at hsource
    simp only [List.append_assoc] at hlonger hsource
    simp only [text, List.append_assoc, ← hlonger]
    rw [lead, List.append_assoc] at hsource
    exact hsource.symm
  refine ⟨_, hstands, ?_⟩
  have hsome := occurrenceAt?_of_stands hstands
  rw [List.length_take_of_le (Nat.le_of_lt hk), h] at hsome
  exact Option.some.inj hsome

/-- **The occurrences of the pattern are the getters that stand in the source.** -/
theorem mem_occurrences_iff {r : PlainRule} {source : List Char} {o : Occurrence} :
    o ∈ r.pattern.occurrences source ↔ ∃ x, r.Stands source x ∧ o = r.occurrence x := by
  rw [mem_occurrences_of_lone r.lone_pattern]
  constructor
  · rintro ⟨k, hk, ho⟩
    exact exists_stands_of_occurrenceAt? hk ho
  · rintro ⟨x, hx, rfl⟩
    refine ⟨x.before.length, ?_, occurrenceAt?_of_stands hx⟩
    obtain ⟨rest, rfl, -, -⟩ := hx
    simp only [text, List.length_append]
    have hget : 0 < " get ".toList.length := by decide
    omega

/-! ## The sites of a rule -/

def siteOf? (source : List Char) (o : Occurrence) : Option Site :=
  match o.groups with
  | [some name, some digits] => some ⟨source.take o.offset, name, digits⟩
  | _ => none

def sites (r : PlainRule) (source : List Char) : List Site :=
  (r.pattern.occurrences source).filterMap (siteOf? source)

theorem siteOf?_occurrence {r : PlainRule} {source : List Char} {x : Site}
    (h : r.Stands source x) : siteOf? source (r.occurrence x) = some x := by
  obtain ⟨rest, rfl, -, -⟩ := h
  show some (Site.mk (List.take x.before.length _) x.name x.digits) = _
  rw [List.append_assoc, List.take_left]

theorem mem_sites_iff {r : PlainRule} {source : List Char} {x : Site} :
    x ∈ r.sites source ↔ r.Stands source x := by
  rw [sites, List.mem_filterMap]
  constructor
  · rintro ⟨o, ho, hx⟩
    obtain ⟨y, hy, rfl⟩ := mem_occurrences_iff.1 ho
    rw [siteOf?_occurrence hy] at hx
    cases hx
    exact hy
  · intro h
    exact ⟨_, mem_occurrences_iff.2 ⟨x, h, rfl⟩, siteOf?_occurrence h⟩

-- More characters are more bytes.
theorem utf8ByteSize_take_lt {s : List Char} {j k : Nat} (hjk : j < k) (hk : k ≤ s.length) :
    (String.ofList (s.take j)).utf8ByteSize < (String.ofList (s.take k)).utf8ByteSize := by
  have hsplit : s.take k = s.take j ++ (s.drop j).take (k - j) := by
    rw [← List.take_add, Nat.add_sub_cancel' (Nat.le_of_lt hjk)]
  have hne : (String.ofList ((s.drop j).take (k - j))).utf8ByteSize ≠ 0 := by
    rw [Ne, String.utf8ByteSize_eq_zero_iff, String.ofList_eq_empty_iff, List.take_eq_nil_iff,
      List.drop_eq_nil_iff]
    omega
  rw [hsplit, String.ofList_append, String.utf8ByteSize_append]
  omega

theorem pairwise_sites (r : PlainRule) (source : List Char) :
    (r.sites source).Pairwise fun x y => x.offset < y.offset := by
  rw [sites, List.pairwise_filterMap]
  apply (Pattern.pairwise_offset_of_lone r.lone_pattern source).imp_of_mem
  intro a b ha hb hab x hx y hy
  have before {o : Occurrence} {z : Site} (hz : siteOf? source o = some z) :
      z.before = source.take o.offset := by
    unfold siteOf? at hz
    split at hz <;> cases hz
    rfl
  rw [Site.offset, Site.offset, before hx, before hy]
  exact utf8ByteSize_take_lt hab.1 (Nat.le_of_lt hab.2)

/-! ## Every getter is reported -/

theorem lineOf_of_stands {r : PlainRule} {source : List Char} {x : Site}
    (h : r.Stands source x) :
    (LineIndex.of source).lineOf (r.occurrence x).bytes = 1 + x.before.count '\n' := by
  obtain ⟨rest, rfl, -, -⟩ := h
  rw [occurrence, List.append_assoc, ← String.utf8ByteSize_ofList]
  exact LineIndex.lineOf_of_append ..

-- What the rule makes of a getter: its hit, if the name is accepted.
theorem hit?_classify {r : PlainRule} {source : List Char} {x : Site} (h : r.Stands source x) :
    ((r.getter.rule.classify (.of source) (r.occurrence x)).bind Finding.hit?) =
      (Option.guard (fun x => decide (r.Accepts x)) x).map (Site.hit r) := by
  have hclassify : r.getter.rule.classify (.of source) (r.occurrence x) =
      if !r.definition.guard.accepts (String.ofList x.name) then some .guarded
      else if 255 < (String.ofList x.name).utf8ByteSize then
        some (.tooLong (1 + x.before.count '\n') (String.ofList x.name).utf8ByteSize)
      else some (.accepted (x.hit r)) := by
    rw [Site.hit, ← lineOf_of_stands h]
    rfl
  rw [hclassify]
  cases hg : r.definition.guard.accepts (String.ofList x.name) with
  | false => simp [Accepts, hg, Finding.hit?, Option.guard]
  | true =>
    by_cases hlong : 255 < (String.ofList x.name).utf8ByteSize
    · have hnot : ¬ (String.ofList x.name).utf8ByteSize ≤ 255 := by omega
      simp [Accepts, hlong, hnot, Finding.hit?, Option.guard]
    · have hshort : (String.ofList x.name).utf8ByteSize ≤ 255 := by omega
      simp [Accepts, hg, hlong, hshort, Finding.hit?, Option.guard]

theorem hits_getter (r : PlainRule) (source : String) :
    r.getter.hits source =
      (((r.sites source.toList).filter fun x => r.Accepts x).take 10000).map (Site.hit r) := by
  have hpattern : r.getter.rule.pattern = r.pattern := rfl
  rw [GetterRule.hits, Rule.findings, Rule.filterMap_limited, List.map_take,
    ← List.filterMap_eq_filter, List.map_filterMap, sites, List.filterMap_filterMap,
    List.filterMap_filterMap, hpattern, List.reverse_nil, List.filterMap_nil, List.nil_append]
  show List.take 10000 _ = _
  congr 1
  apply List.filterMap_congr
  intro o ho
  obtain ⟨x, hx, rfl⟩ := mem_occurrences_iff.1 ho
  rw [hit?_classify hx, siteOf?_occurrence hx]
  rfl

theorem hits_scan (r : PlainRule) (source : String) :
    ((Library.standard.scan source).hits.filter fun h => h.rule = r.definition.id) =
      r.getter.hits source := by
  have hrule (g : GetterRule) (hit : Hit) (hof : hit.Of g) :
      decide (hit.rule = r.definition.id) = decide (g.definition.id = r.definition.id) := by
    rw [hof.rule]
  rw [Scan.filter_hits_standard hrule, r.filter_standardGetters, List.flatMap_singleton]

/-- **The scan reports every getter that stands in a source.** The hits of a rule are those of all
its getters with an accepted name, in the order of their offsets, up to the ten thousandth. -/
theorem hits_eq_sites (r : PlainRule) (source : String) :
    ∃ sites : List Site,
      (∀ x, x ∈ sites ↔ r.Stands source.toList x) ∧
      (sites.Pairwise fun x y => x.offset < y.offset) ∧
      ((Library.standard.scan source).hits.filter fun h => h.rule = r.definition.id) =
        ((sites.filter fun x => r.Accepts x).take 10000).map (Site.hit r) :=
  ⟨r.sites source.toList, fun _ => mem_sites_iff, r.pairwise_sites source.toList,
    (r.hits_scan source).trans (r.hits_getter source)⟩

end PlainRule

end DesignTokens
