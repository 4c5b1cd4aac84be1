import DesignTokens.Proofs.Extract.Fold
import DesignTokens.Proofs.Extract.Hits
import DesignTokens.Proofs.Number.PlainText
import DesignTokens.Run.Job

/-!
# What the model of a source can hold

Whatever a source is, each entry of its model has one of the forms that a standard rule gives.
Names are words, with an ending where the rule adds one; numbers of scales and of text styles are
finite and not negative, since no minus sign is ever captured with them.
-/

namespace DesignTokens

/-- The categories with a scale, and the names that each scale accepts. -/
def scales : List (Category × NameGuard) :=
  [(.typography, .startsWithOne typographyStarts), (.spacing, .startsWithNone claimedStarts),
    (.borders, .startsWithOne borderStarts)]

/-- The entries that the standard rules can make. -/
inductive Admissible : Category → String → TokenValue → Prop
  | color {name : String} {raw : List Char} {hex : String} (hname : Text.IsName name.toList)
      (hread : Capture.readColor raw = some hex) : Admissible .colors name (.color hex)
  | gradient {name : String} {stops : List String} (hname : Text.IsName name.toList) :
      Admissible .colors (name ++ "_gradient") (.gradient stops)
  | scale {c : Category} {name : String} {x : Binary64} {guard : NameGuard}
      (hname : Text.IsName name.toList) (hneg : x.negative = false) (hfin : x.isFinite = true)
      (hc : (c, guard) ∈ scales) (hguard : guard.accepts name = true) :
      Admissible c name (.number x)
  | fontSize {name : String} {x : Binary64} (hname : Text.IsName name.toList)
      (hneg : x.negative = false) (hfin : x.isFinite = true) :
      Admissible .typography (name ++ "_fontSize") (.number x)
  | fontWeight {name word : String} (hname : Text.IsName name.toList) :
      Admissible .typography (name ++ "_fontWeight") (.symbol word)
  | shadow {name : String} {s : Shadow} (hname : Text.IsName name.toList) :
      Admissible .shadows name (.shadow s)
  | duration {name : String} {n : Nat} (hname : Text.IsName name.toList) :
      Admissible .animations (name ++ "_duration") (.integer n)
  | curve {name word : String} (hname : Text.IsName name.toList) :
      Admissible .animations (name ++ "_curve") (.symbol word)

namespace Admissible

theorem color_inv {c : Category} {name hex : String} (h : Admissible c name (.color hex)) :
    Text.IsName name.toList ∧ ∃ raw, Capture.readColor raw = some hex := by
  generalize hv : TokenValue.color hex = v at h
  cases h with
  | color hname hread =>
    cases hv
    exact ⟨hname, _, hread⟩
  | gradient | scale | fontSize | fontWeight | shadow | duration | curve => cases hv

theorem number_inv {c : Category} {name : String} {x : Binary64}
    (h : Admissible c name (.number x)) :
    Text.IsName name.toList ∧ x.negative = false ∧ x.isFinite = true := by
  generalize hv : TokenValue.number x = v at h
  cases h with
  | scale hname hneg hfin =>
    cases hv
    exact ⟨hname, hneg, hfin⟩
  | fontSize hname hneg hfin =>
    cases hv
    rw [String.toList_append]
    exact ⟨hname.append (List.all_eq_true.1 (by decide)), hneg, hfin⟩
  | color | gradient | fontWeight | shadow | duration | curve => cases hv

-- All spacings are numbers.
theorem exists_number {name : String} {value : TokenValue}
    (h : Admissible .spacing name value) : ∃ x, value = .number x := by
  cases h
  exact ⟨_, rfl⟩

-- Behind a font size there is always a name, since no scale of the typography starts with `_`.
theorem base_fontSize {name : String} {x : Binary64}
    (h : Admissible .typography (name ++ "_fontSize") (.number x)) : Text.IsName name.toList := by
  have hfull := h.number_inv.1
  rw [String.toList_append] at hfull
  apply hfull.of_append_left
  intro hnil
  generalize hn : name ++ "_fontSize" = n at h
  generalize hv : TokenValue.number x = v at h
  cases h with
  | @scale _ _ _ guard _ _ _ hc hguard =>
    have hguard' : guard = .startsWithOne typographyStarts := by simpa [scales] using hc
    rw [hguard', ← hn, String.toList_eq_nil_iff.1 hnil] at hguard
    exact absurd hguard (by decide)
  | @fontSize base _ hname _ _ =>
    rw [← (String.append_left_inj "_fontSize").1 hn] at hname
    exact hname.nonempty hnil
  | fontWeight => cases hv

end Admissible

/-! ## Captured numbers -/

theorem CharClass.has_decimal_minus : CharClass.decimal.has '-' = false := by
  decide

namespace Detail

-- What is found of a part is the first group of a text that the part takes.
theorem takes_of_find? {part : Pattern} {body raw : List Char} (h : find? part body = some raw) :
    ∃ t gs, part.Takes t gs ∧ raw = (gs.head?.join).getD [] := by
  rcases Option.map_eq_some_iff.1 h with ⟨groups, hgroups, rfl⟩
  rcases Option.map_eq_some_iff.1 hgroups with ⟨o, ho, rfl⟩
  rcases Pattern.takes_of_mem_occurrences (List.mem_of_mem_head? ho) with ⟨t, -, -, ht⟩
  exact ⟨t, _, ht, rfl⟩

-- A number behind a key is captured without a sign.
theorem not_mem_of_find? {part : Pattern} {key : String} (hpart : part = .keyed key .amount)
    {body raw : List Char} (h : find? part body = some raw) : '-' ∉ raw := by
  rcases takes_of_find? h with ⟨t, gs, ht, rfl⟩
  rw [hpart] at ht
  rcases Pattern.takes_keyed ht with ⟨u, hu⟩
  rcases Pattern.takes_amount hu with ⟨rfl, hdecimal⟩
  intro hm
  have hminus := hdecimal '-' hm
  rw [CharClass.has_decimal_minus] at hminus
  cases hminus

end Detail

namespace Hit

-- A numeric getter captures its number without a sign.
theorem Of.not_mem_body {g : GetterRule} {h : Hit} (hof : h.Of g) (hvalue : g.value = .amount) :
    '-' ∉ h.body := by
  rcases hof.captures with ⟨t, gs, ht, hcaptures⟩
  rw [hvalue] at ht
  rcases Pattern.takes_amount ht with ⟨rfl, hdecimal⟩
  intro hm
  rw [body, hcaptures] at hm
  have hminus := hdecimal '-' (by simpa using hm)
  rw [CharClass.has_decimal_minus] at hminus
  cases hminus

end Hit

/-! ## Bindings of hits -/

-- A standard rule is for a scale, or its shape says which category it is for.
theorem RuleDefinition.scale_or_shape_of_mem {g : GetterRule} (hg : g ∈ standardGetters) :
    (g.definition.shape = .numeric ∧ g.value = .amount ∧
        (g.definition.category, g.definition.guard) ∈ scales) ∨
      (g.definition.shape, g.definition.category) ∈
        [(.hex, .colors), (.gradient, .colors), (.textStyle, .typography), (.shadow, .shadows),
          (.duration, .animations), (.curve, .animations)] := by
  simp only [standardGetters, List.mem_cons, List.not_mem_nil, or_false] at hg
  rcases hg with rfl | rfl | rfl | rfl | rfl | rfl | rfl | rfl | rfl | rfl
  case inr.inr.inr.inl | inr.inr.inr.inr.inr.inl | inr.inr.inr.inr.inr.inr.inr.inr.inr =>
    exact .inl ⟨rfl, rfl, by decide⟩
  all_goals exact .inr (by decide)

namespace Hit

theorem Of.admissible_scale {g : GetterRule} {h : Hit} (hof : h.Of g)
    (hshape : g.definition.shape = .numeric) (hvalue : g.value = .amount)
    (hg : (g.definition.category, g.definition.guard) ∈ scales) {b : String × TokenValue}
    (hb : b ∈ h.bindings) : Admissible h.category b.1 b.2 := by
  have hm := h.means
  have hs := hof.shape.trans hshape
  rw [hof.category]
  generalize h.bindings = bs at hm hb
  generalize h.warnings = ws at hm
  cases hm with
  | number _ hr =>
    rw [List.mem_singleton.1 hb]
    exact .scale hof.name (Capture.negative_of_readNumber (hof.not_mem_body hvalue) hr)
      (Capture.isFinite_of_readNumber hr) hg hof.guard
  | malformedNumber => cases hb
  | color hs' | malformedColor hs' | gradient hs' | textStyle hs' | shadow hs' | duration hs'
  | malformedDuration hs' | curve hs' =>
    rw [hs] at hs'
    cases hs'

-- The size of a text style is a number without a sign.
theorem PartMeans.number {h : Hit} {part : Pattern} {key : String}
    (hpart : part = .keyed key .amount) {code : LogCode} {message : String} {x : Binary64}
    {ws : List BuildWarning}
    (hm : h.PartMeans part Capture.readNumber code message (some x) ws) :
    x.negative = false ∧ x.isFinite = true := by
  cases hm with
  | readable hf hr =>
    exact ⟨Capture.negative_of_readNumber (Detail.not_mem_of_find? hpart hf) hr,
      Capture.isFinite_of_readNumber hr⟩

/-- **What a hit binds has one of the forms.** -/
theorem Of.admissible {g : GetterRule} (hg : g ∈ RuleDefinition.standardGetters) {h : Hit}
    (hof : h.Of g) {b : String × TokenValue} (hb : b ∈ h.bindings) :
    Admissible h.category b.1 b.2 := by
  rcases RuleDefinition.scale_or_shape_of_mem hg with ⟨hshape, hvalue, hscale⟩ | hpair
  · exact hof.admissible_scale hshape hvalue hscale hb
  · rw [← hof.shape, ← hof.category] at hpair
    have hm := h.means
    have hname := hof.name
    generalize h.bindings = bs at hm hb
    generalize h.warnings = ws at hm
    -- in each case the shape leaves one category
    cases hm with
    | color hs hr =>
      rw [List.mem_singleton.1 hb, show h.category = .colors by simpa [hs] using hpair]
      exact .color hname hr
    | gradient hs =>
      rw [List.mem_singleton.1 hb, show h.category = .colors by simpa [hs] using hpair]
      exact .gradient hname
    | textStyle hs hsize =>
      rw [show h.category = .typography by simpa [hs] using hpair]
      rcases List.mem_append.1 hb with hb | hb
      · rcases List.mem_map.1 hb with ⟨x, hx, rfl⟩
        rw [Option.mem_toList.1 hx] at hsize
        have hnum := hsize.number Detail.fontSize_eq
        exact .fontSize hname hnum.1 hnum.2
      · rcases List.mem_map.1 hb with ⟨w, -, rfl⟩
        exact .fontWeight hname
    | shadow hs =>
      rw [List.mem_singleton.1 hb, show h.category = .shadows by simpa [hs] using hpair]
      exact .shadow hname
    | duration hs =>
      rw [List.mem_singleton.1 hb, show h.category = .animations by simpa [hs] using hpair]
      exact .duration hname
    | curve hs =>
      rw [List.mem_singleton.1 hb, show h.category = .animations by simpa [hs] using hpair]
      exact .curve hname
    | number hs => simp [hs] at hpair
    | malformedColor | malformedNumber | malformedDuration => cases hb

end Hit

namespace Library

variable {P : Type} [Matcher P]

-- The tables of a model are what the bindings of the hits amount to.
theorem table_model_extract (lib : Library P) (source : String) (c : Category) :
    (lib.extract source).build.model.table c = .ofBindings (bindingsIn c (lib.scan source).hits) :=
  Build.table_model_ofHits _ c

theorem nodup_names_extract (lib : Library P) (source : String) (c : Category) :
    ((lib.extract source).build.model.table c).names.Nodup := by
  rw [table_model_extract]
  exact TokenTable.nodup_names_ofBindings _

/-- **Each entry of the model of a source has one of the forms.** -/
theorem admissible_of_mem_table {source : String} {c : Category} {name : String}
    {value : TokenValue}
    (h : (name, value) ∈ ((standard.extract source).build.model.table c).entries) :
    Admissible c name value := by
  rw [table_model_extract] at h
  rcases List.mem_flatMap.1 (TokenTable.mem_of_mem_ofBindings h) with ⟨hit, hhit, hb⟩
  rcases List.mem_filter.1 hhit with ⟨hhit, hc⟩
  rcases Scan.of_mem_hits hhit with ⟨g, hg, hof⟩
  have ha := hof.admissible hg hb
  rw [of_decide_eq_true hc] at ha
  exact ha

end Library

end DesignTokens
