import DesignTokens.Proofs.Document.Stylesheet

/-!
# Where font sizes come from

The stylesheet takes a number of the typography for the size of a text style if its name ends in
`_fontSize`. A type metric may have such a name as well. So the value behind a font size is that of
the last readable text style with its name, and if there is none, that of the last type metric whose
name only looks like one. The font sizes come from text styles alone exactly if no type metric
stands in for a style that gives none.
-/

namespace DesignTokens

namespace Hit

/-- The name and the size of a text style, if its size is there and can be read. -/
def styleSize? (h : Hit) : Option (String × Binary64) :=
  ((Detail.find? Detail.fontSize h.body).bind Capture.readNumber).map (h.name, ·)

/-- The name and the number of a metric, if it can be read. -/
def metric? (h : Hit) : Option (String × Binary64) :=
  (Capture.readNumber h.body).map (h.name, ·)

/-! ## What hits bind -/

theorem bindings_of_numeric {h : Hit} (hs : h.shape = .numeric) :
    h.bindings = h.metric?.toList.map fun b => (b.1, .number b.2) := by
  have hm := h.means
  generalize h.bindings = bs at hm ⊢
  generalize h.warnings = ws at hm
  cases hm with
  | number _ hr => simp [metric?, hr]
  | malformedNumber _ hr => simp [metric?, hr]
  | color hs' | malformedColor hs' | gradient hs' | textStyle hs' | shadow hs' | duration hs'
  | malformedDuration hs' | curve hs' =>
    rw [hs] at hs'
    cases hs'

theorem bindings_of_textStyle {h : Hit} (hs : h.shape = .textStyle) :
    h.bindings = (h.styleSize?.toList.map fun b => (b.1 ++ "_fontSize", .number b.2))
      ++ (Detail.find? Detail.fontWeight h.body).toList.map fun w =>
        (h.name ++ "_fontWeight", .symbol (String.ofList w)) := by
  have hm := h.means
  generalize h.bindings = bs at hm ⊢
  generalize h.warnings = ws at hm
  cases hm with
  | textStyle _ hsize =>
    rw [hsize.value_eq, styleSize?]
    cases (Detail.find? Detail.fontSize h.body).bind Capture.readNumber <;> rfl
  | color hs' | malformedColor hs' | gradient hs' | number hs' | malformedNumber hs' | shadow hs'
  | duration hs' | malformedDuration hs' | curve hs' =>
    rw [hs] at hs'
    cases hs'

/-! ## The last binding of a font size -/

theorem append_fontSize_ne_append_fontWeight (a b : String) :
    a ++ "_fontWeight" ≠ b ++ "_fontSize" := by
  intro h
  have hlast := congrArg (fun s : String => s.toList.getLast?) h
  simp [String.toList_append] at hlast

theorem lastBinding_bindings_of_textStyle {h : Hit} (hs : h.shape = .textStyle) (base : String) :
    TokenTable.lastBinding (base ++ "_fontSize") h.bindings =
      (TokenTable.lastBinding base h.styleSize?.toList).map .number := by
  have hweight : TokenTable.lastBinding (base ++ "_fontSize")
      ((Detail.find? Detail.fontWeight h.body).toList.map fun w =>
        (h.name ++ "_fontWeight", TokenValue.symbol (String.ofList w))) = none := by
    rw [TokenTable.lastBinding_eq_none_iff]
    intro hm
    simp only [List.map_map, List.mem_map] at hm
    rcases hm with ⟨w, -, hw⟩
    exact append_fontSize_ne_append_fontWeight _ _ hw
  rw [bindings_of_textStyle hs, TokenTable.lastBinding_append, hweight, Option.none_or]
  cases h.styleSize? with
  | none => rfl
  | some b =>
    rw [Option.toList_some, List.map_singleton, TokenTable.lastBinding_singleton,
      TokenTable.lastBinding_singleton]
    simp only [String.append_left_inj]
    split <;> rfl

theorem lastBinding_flatMap_of_textStyle {hits : List Hit} (hs : ∀ h ∈ hits, h.shape = .textStyle)
    (base : String) :
    TokenTable.lastBinding (base ++ "_fontSize") (hits.flatMap bindings) =
      (TokenTable.lastBinding base (hits.filterMap styleSize?)).map .number := by
  induction hits with
  | nil => rfl
  | cons h hits ih =>
    have hcons : (h :: hits).filterMap styleSize? =
        h.styleSize?.toList ++ hits.filterMap styleSize? := by
      rw [List.filterMap_cons]
      cases h.styleSize? <;> rfl
    rw [List.flatMap_cons, TokenTable.lastBinding_append, hcons, TokenTable.lastBinding_append,
      ih fun h' hm => hs h' (List.mem_cons_of_mem h hm),
      lastBinding_bindings_of_textStyle (hs h List.mem_cons_self), Option.map_or]

theorem flatMap_bindings_of_numeric {hits : List Hit} (hs : ∀ h ∈ hits, h.shape = .numeric) :
    hits.flatMap bindings = (hits.filterMap metric?).map fun b => (b.1, .number b.2) := by
  induction hits with
  | nil => rfl
  | cons h hits ih =>
    rw [List.flatMap_cons, bindings_of_numeric (hs h List.mem_cons_self),
      ih fun h' hm => hs h' (List.mem_cons_of_mem h hm), List.filterMap_cons]
    cases h.metric? <;> rfl

end Hit

/-! ## The typography of a source -/

namespace Scan

/-- The readable sizes of text styles in scan order, each with the name of its style. -/
def styleSizes (s : Scan) : List (String × Binary64) :=
  (s.hits.filter fun h => h.rule = "text_style").filterMap Hit.styleSize?

/-- The readable type metrics in scan order. -/
def typeMetrics (s : Scan) : List (String × Binary64) :=
  (s.hits.filter fun h => h.rule = "font_scale").filterMap Hit.metric?

open RuleDefinition

def styleHits (source : String) : List Hit :=
  GetterRule.hits ⟨textStyle, "TextStyle", .styleValue⟩ source

def metricHits (source : String) : List Hit :=
  GetterRule.hits ⟨fontScale, "double", .amount⟩ source

theorem styleSizes_standard (source : String) :
    (Library.standard.scan source).styleSizes = (styleHits source).filterMap Hit.styleSize? := by
  have hone : (standardGetters.filter fun g => g.definition.id = "text_style") =
      [⟨textStyle, "TextStyle", .styleValue⟩] := by rfl
  rw [styleSizes, filter_hits_standard (q := fun g => g.definition.id = "text_style")
    fun g hit hof => by rw [hof.rule], hone, List.flatMap_singleton]
  rfl

theorem typeMetrics_standard (source : String) :
    (Library.standard.scan source).typeMetrics = (metricHits source).filterMap Hit.metric? := by
  have hone : (standardGetters.filter fun g => g.definition.id = "font_scale") =
      [⟨fontScale, "double", .amount⟩] := by rfl
  rw [typeMetrics, filter_hits_standard (q := fun g => g.definition.id = "font_scale")
    fun g hit hof => by rw [hof.rule], hone, List.flatMap_singleton]
  rfl

-- The typography is bound by the type metrics first, and then by the text styles.
theorem bindingsIn_typography (source : String) :
    bindingsIn .typography (Library.standard.scan source).hits =
      (metricHits source).flatMap Hit.bindings ++ (styleHits source).flatMap Hit.bindings := by
  have htwo : (standardGetters.filter fun g => g.definition.category = .typography) =
      [⟨fontScale, "double", .amount⟩, ⟨textStyle, "TextStyle", .styleValue⟩] := by rfl
  rw [bindingsIn, filter_hits_standard (q := fun g => g.definition.category = .typography)
    fun g hit hof => by rw [hof.category], htwo, List.flatMap_cons, List.flatMap_singleton,
    List.flatMap_append]
  rfl

/-- **The last binding of a font size** is that of a text style, or else that of a metric. -/
theorem lastBinding_fontSize (source base : String) :
    TokenTable.lastBinding (base ++ "_fontSize")
        (bindingsIn .typography (Library.standard.scan source).hits) =
      ((TokenTable.lastBinding base (Library.standard.scan source).styleSizes).or
        (TokenTable.lastBinding (base ++ "_fontSize")
          (Library.standard.scan source).typeMetrics)).map .number := by
  have hmetrics : ∀ h ∈ metricHits source, h.shape = .numeric :=
    fun h hm => (GetterRule.of_mem_hits hm).shape
  have hstyles : ∀ h ∈ styleHits source, h.shape = .textStyle :=
    fun h hm => (GetterRule.of_mem_hits hm).shape
  rw [bindingsIn_typography, TokenTable.lastBinding_append,
    Hit.lastBinding_flatMap_of_textStyle hstyles, Hit.flatMap_bindings_of_numeric hmetrics,
    TokenTable.lastBinding_map, ← Option.map_or, styleSizes_standard, typeMetrics_standard]

end Scan

/-! ## The lines of the stylesheet -/

namespace Stylesheet

/-- The values that declarations give to a property, in order. -/
def valuesOf (ds : List Declaration) (property : String) : List String :=
  (ds.filter fun d => d.property = property).map (·.value)

theorem valuesOf_append (ds es : List Declaration) (property : String) :
    valuesOf (ds ++ es) property = valuesOf ds property ++ valuesOf es property := by
  simp [valuesOf]

-- Declarations of another kind give no value to a property.
theorem valuesOf_kind_eq_nil {α : Type} {kind : String} (hk : kind.toList.head? = some 'c' ∨
    kind.toList.head? = some 's') (bs : List (String × α)) (f : α → String) (base : String) :
    valuesOf (bs.map fun b => ⟨kind ++ b.1, f b.2⟩) ("font-size-" ++ base) = [] := by
  rw [valuesOf, List.map_eq_nil_iff, List.filter_eq_nil_iff]
  intro d hd hp
  rcases List.mem_map.1 hd with ⟨b, -, rfl⟩
  have hhead := congrArg (fun s : String => s.toList.head?) (of_decide_eq_true hp)
  simp only [String.toList_append, List.head?_append] at hhead
  rcases hk with hk | hk <;> rw [hk] at hhead <;> exact absurd hhead (by simp)

theorem valuesOf_fontSizes (bs : List (String × Binary64)) (base : String) :
    valuesOf (bs.map fun b => ⟨"font-size-" ++ b.1, lengthText b.2⟩) ("font-size-" ++ base) =
      (bs.filter fun b => b.1 = base).map fun b => lengthText b.2 := by
  induction bs with
  | nil => rfl
  | cons b bs ih =>
    rw [List.map_cons, List.filter_cons]
    by_cases hb : b.1 = base
    · rw [if_pos (decide_eq_true hb), List.map_cons, ← ih, valuesOf, List.filter_cons, if_pos]
      · rfl
      · simp [hb]
    · rw [if_neg (by simpa using hb), ← ih, valuesOf, List.filter_cons, if_neg]
      · rfl
      · simpa [String.append_right_inj] using hb

theorem fontSizeOf?_append (base : String) (v : TokenValue) :
    fontSizeOf? (base ++ "_fontSize", v) = v.number?.map (base, ·) := by
  have hdrop : dropEnding? "_fontSize" (base ++ "_fontSize") = some base := by
    have hsome : (dropEnding? "_fontSize" (base ++ "_fontSize")).isSome = true := by
      rw [isSome_dropEnding?, List.isSuffixOf_iff_suffix, String.toList_append]
      exact List.suffix_append ..
    rcases Option.isSome_iff_exists.1 hsome with ⟨t, ht⟩
    rw [ht, (String.append_left_inj "_fontSize").1 (dropEnding?_eq_some ht)]
  simp only [fontSizeOf?, hdrop]
  cases v.number? <;> rfl

-- Of the font sizes of a table, a name has the one behind the name with the ending.
theorem filter_fontSizeOf? {es : List (String × TokenValue)} (hes : (es.map (·.1)).Nodup)
    (base : String) :
    ((es.filterMap fontSizeOf?).filter fun b => b.1 = base) =
      ((((TokenTable.mk es).get? (base ++ "_fontSize")).bind (·.number?)).map
        (base, ·)).toList := by
  induction es with
  | nil => rfl
  | cons e es ih =>
    rcases e with ⟨name, value⟩
    rw [List.map_cons, List.nodup_cons] at hes
    have hrest := ih hes.2
    rw [TokenTable.get?] at hrest ⊢
    rw [List.find?_cons]
    by_cases hname : name = base ++ "_fontSize"
    · subst hname
      -- no later entry has the name
      have hnone : es.find? (fun e => e.1 = base ++ "_fontSize") = none := by
        rw [List.find?_eq_none]
        intro e he hn
        exact hes.1 (List.mem_map.2 ⟨e, he, of_decide_eq_true hn⟩)
      have hnil : ((es.filterMap fontSizeOf?).filter fun b => b.1 = base) = [] := by
        rw [hrest, hnone]
        rfl
      rw [decide_eq_true rfl, List.filterMap_cons, fontSizeOf?_append]
      simp only [Option.map_some, Option.bind_some]
      cases value.number? with
      | none => exact hnil
      | some x =>
        show List.filter _ ((base, x) :: _) = [(base, x)]
        rw [List.filter_cons, if_pos (decide_eq_true rfl), hnil]
    · rw [decide_eq_false hname, ← hrest, List.filterMap_cons]
      cases hb : fontSizeOf? (name, value) with
      | none => rfl
      | some b =>
        rw [List.filter_cons, if_neg]
        intro hbase
        apply hname
        rw [← of_decide_eq_true hbase]
        exact congrArg Prod.fst (eq_of_fontSizeOf? _ _ hb)

theorem valuesOf_declarations {m : TokenModel} (hnodup : (m.table .typography).names.Nodup)
    (base : String) :
    valuesOf (declarations m) ("font-size-" ++ base) =
      (((m.get? .typography (base ++ "_fontSize")).bind (·.number?)).map lengthText).toList := by
  have hsizes : ((fontSizes m).filter fun b => b.1 = base) =
      (((m.get? .typography (base ++ "_fontSize")).bind (·.number?)).map (base, ·)).toList := by
    rw [fontSizes_eq]
    exact filter_fontSizeOf? hnodup base
  have hcolors : valuesOf (m.scalarColors.map fun b => ⟨"color-" ++ b.1, b.2⟩)
      ("font-size-" ++ base) = [] :=
    valuesOf_kind_eq_nil (.inl (by decide)) m.scalarColors id base
  have hspacings : valuesOf (m.spacingNumbers.map fun b => ⟨"spacing-" ++ b.1, lengthText b.2⟩)
      ("font-size-" ++ base) = [] :=
    valuesOf_kind_eq_nil (.inr (by decide)) m.spacingNumbers lengthText base
  change valuesOf (_ ++ _ ++ _) _ = _
  rw [valuesOf_append, valuesOf_append, hcolors, hspacings, valuesOf_fontSizes, hsizes]
  cases (m.get? .typography (base ++ "_fontSize")).bind (·.number?) <;> rfl

-- The value of a font size in the stylesheet of a source.
theorem valuesOf_extract (source base : String) :
    valuesOf (declarations (Library.standard.extract source).build.model) ("font-size-" ++ base) =
      (((TokenTable.lastBinding base (Library.standard.scan source).styleSizes).or
        (TokenTable.lastBinding (base ++ "_fontSize")
          (Library.standard.scan source).typeMetrics)).map lengthText).toList := by
  rw [valuesOf_declarations (Library.nodup_names_extract Library.standard source .typography),
    TokenModel.get?, Library.table_model_extract, TokenTable.get?_ofBindings,
    Scan.lastBinding_fontSize]
  cases (TokenTable.lastBinding base (Library.standard.scan source).styleSizes).or
    (TokenTable.lastBinding (base ++ "_fontSize") (Library.standard.scan source).typeMetrics) <;>
    rfl

/-! ## Sizes and styles -/

/-- The font sizes of declarations come from text styles alone: each has the value of the last
readable style with its name, and each name with a readable style has one. -/
def SizesFromStyles (s : Scan) (ds : List Declaration) : Prop :=
  (∀ d ∈ ds, ∀ base, d.property = "font-size-" ++ base →
    ∃ x, TokenTable.lastBinding base s.styleSizes = some x ∧ d.value = lengthText x) ∧
  ∀ base ∈ s.styleSizes.map (·.1), (valuesOf ds ("font-size-" ++ base)).length = 1

theorem mem_valuesOf {ds : List Declaration} {property value : String} :
    value ∈ valuesOf ds property ↔ ⟨property, value⟩ ∈ ds := by
  simp only [valuesOf, List.mem_map, List.mem_filter, decide_eq_true_eq]
  constructor
  · rintro ⟨d, ⟨hd, rfl⟩, rfl⟩
    exact hd
  · intro hd
    exact ⟨_, ⟨hd, rfl⟩, rfl⟩

theorem sizesFromStyles_iff {s : Scan} {ds : List Declaration}
    (h : ∀ base, valuesOf ds ("font-size-" ++ base) =
      (((TokenTable.lastBinding base s.styleSizes).or
        (TokenTable.lastBinding (base ++ "_fontSize") s.typeMetrics)).map lengthText).toList) :
    SizesFromStyles s ds ↔
      ∀ base, base ++ "_fontSize" ∈ s.typeMetrics.map (·.1) → base ∈ s.styleSizes.map (·.1) := by
  constructor
  · intro hsizes base hmetric
    cases hlast : TokenTable.lastBinding (base ++ "_fontSize") s.typeMetrics with
    | none => exact absurd hmetric (TokenTable.lastBinding_eq_none_iff.1 hlast)
    | some x =>
      rw [← Decidable.not_not (p := base ∈ _)]
      intro hstyle
      -- the metric then stands in for the style
      have hnone := TokenTable.lastBinding_eq_none_iff.2 hstyle
      have hvalue : lengthText x ∈ valuesOf ds ("font-size-" ++ base) := by
        rw [h base, hnone, hlast]
        exact List.mem_singleton.2 rfl
      rcases hsizes.1 _ (mem_valuesOf.1 hvalue) base rfl with ⟨y, hy, -⟩
      rw [hnone] at hy
      cases hy
  · intro hnames
    constructor
    · rintro ⟨property, value⟩ hd base rfl
      have hvalue := mem_valuesOf.2 hd
      rw [h base] at hvalue
      cases hlast : TokenTable.lastBinding base s.styleSizes with
      | some x =>
        rw [hlast] at hvalue
        exact ⟨x, rfl, by simpa using hvalue⟩
      | none =>
        -- then no metric has the name with the ending either
        have hstyle := TokenTable.lastBinding_eq_none_iff.1 hlast
        have hmetric := TokenTable.lastBinding_eq_none_iff.2 fun hm => hstyle (hnames base hm)
        rw [hlast, hmetric] at hvalue
        cases hvalue
    · intro base hbase
      cases hlast : TokenTable.lastBinding base s.styleSizes with
      | some x => rw [h base, hlast]; rfl
      | none => exact absurd hbase (TokenTable.lastBinding_eq_none_iff.1 hlast)

/-- **What the font sizes of a source are.** Behind each stands the last readable style with its
name or else the last metric whose name only looks like one. They come from text styles alone
exactly if each metric whose name looks like the size of a style has a readable style beside it. -/
theorem fontSizes_extract (source : String) (ctx : DocumentContext) :
    ∃ text ds, adapter.render (Library.standard.extract source).build.model ctx = .ok text ∧
      read? text = some ds ∧
      (∀ base, valuesOf ds ("font-size-" ++ base) =
        (((TokenTable.lastBinding base (Library.standard.scan source).styleSizes).or
          (TokenTable.lastBinding (base ++ "_fontSize")
            (Library.standard.scan source).typeMetrics)).map lengthText).toList) ∧
      (SizesFromStyles (Library.standard.scan source) ds ↔
        ∀ base, base ++ "_fontSize" ∈ (Library.standard.scan source).typeMetrics.map (·.1) →
          base ∈ (Library.standard.scan source).styleSizes.map (·.1)) := by
  have hreadable : ∀ d ∈ declarations (Library.standard.extract source).build.model, d.Readable :=
    fun d hd => (wellFormed_of_mem_declarations
      (fun _ _ _ => Library.admissible_of_mem_table) hd).readable
  exact ⟨_, _, rfl, read?_rule hreadable, valuesOf_extract source,
    sizesFromStyles_iff (valuesOf_extract source)⟩

/-- A getter of a type metric whose name looks like the size of a text style. -/
def lookalike : String := "double get fontSizeX_fontSize => 12;"

-- The metric gives a font size, and there is no text style at all.
theorem fontSize_lookalike :
    adapter.render (Library.standard.extract lookalike).build.model ⟨"", "", none, "", []⟩ =
        .ok ":root \x7b\n  --font-size-fontSizeX: 12px;\n\x7d\n" ∧
      read? ":root \x7b\n  --font-size-fontSizeX: 12px;\n\x7d\n" =
        some [⟨"font-size-fontSizeX", "12px"⟩] ∧
      ¬ SizesFromStyles (Library.standard.scan lookalike) [⟨"font-size-fontSizeX", "12px"⟩] := by
  have hhits : (Library.standard.scan lookalike).hits =
      [⟨.typography, "font_scale", .numeric, "fontSizeX_fontSize", ["12"], 1⟩] := by
    rw [Scan.hits_standard]
    decide +kernel
  have hmodel : declarations (Library.standard.extract lookalike).build.model =
      [⟨"font-size-fontSizeX", "12px"⟩] := by
    rw [Library.extract, hhits]
    decide +kernel
  have hstyles : (Library.standard.scan lookalike).styleSizes = [] := by
    rw [Scan.styleSizes, hhits]
    rfl
  refine ⟨?_, by decide +kernel, ?_⟩
  · show Except.ok (rule _) = _
    rw [hmodel]
    decide +kernel
  · intro h
    rcases h.1 _ List.mem_cons_self "fontSizeX" (by decide) with ⟨x, hx, -⟩
    rw [hstyles] at hx
    cases hx

end Stylesheet

end DesignTokens
