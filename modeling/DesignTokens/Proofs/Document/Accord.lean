import DesignTokens.Proofs.Document.ReadBack
import DesignTokens.Proofs.Document.Stylesheet
import DesignTokens.Proofs.Json.Front
import DesignTokens.Proofs.Number.LengthText
import DesignTokens.Proofs.Run.Agreement

/-!
# Documents that agree

The documents of a run show parts of one model through different filters, in different notations.
What a reader takes from each of them is the same: the same colors and spacings in the same order,
the same number behind each spacing, be it a JSON number or a length in pixels, and counts that are
those of the complete model.
-/

namespace DesignTokens

/-! ## Looking into documents -/

/-- The members of the object under a key. -/
def Json.under? (key : String) (j : Json) : Option (List (String × Json)) :=
  match j.get? key with
  | some (.object members) => some members
  | _ => none

def Json.textMember? : String × Json → Option (String × String)
  | (name, .string s) => some (name, s)
  | _ => none

/-- What a declaration of a kind is about, and its value. -/
def Stylesheet.Declaration.named? (kind : String) (d : Declaration) : Option (String × String) :=
  if kind.toList.isPrefixOf d.property.toList then
    some (String.ofList (d.property.toList.drop kind.toList.length), d.value)
  else none

namespace Overview

/-- The lines up to the first count. -/
def heading (ctx : DocumentContext) : List String :=
  ["# " ++ ctx.documentName, "", "Schema version `" ++ ctx.schemaVersion ++ "`."]
    ++ (ctx.generatedAt.map fun t => "Generated at " ++ t.text ++ ".").toList
    ++ ["", "## Files", ""]
    ++ ctx.manifest.map (fun e => "- `" ++ e.fileName ++ "` - " ++ e.description)
    ++ ["", "## Tokens", "", "| Category | Count |", "|----------|-------|"]

/-- The rows of the categories and the row of their sum. -/
def rows (counts : Category → Nat) : List String :=
  Category.all.map (fun c => "| " ++ c.title ++ " | " ++ toString (counts c) ++ " |")
    ++ ["| **Total** | " ++ toString (Category.all.map counts).sum ++ " |"]

/-- The lines behind the counts. -/
def ending (ctx : DocumentContext) : List String :=
  ["", "## Regenerating", "", "```bash",
    if ctx.source = "" then "export-tokens" else "export-tokens --source " ++ ctx.source, "```"]

end Overview

/-! ## What documents agree about -/

/-- The texts of the standard documents. -/
structure DocumentTexts where
  complete : String
  stylesheet : String
  tree : String
  flat : String
  vendor : String
  overview : String

def DocumentTexts.documents (d : DocumentTexts) : List Document :=
  [⟨"json", "design-tokens.json", d.complete⟩, ⟨"css", "design-tokens.css", d.stylesheet⟩,
    ⟨"design-tool", "figma-tokens.json", d.tree⟩, ⟨"flat", "sketch-tokens.json", d.flat⟩,
    ⟨"vendor", "adobe-xd-tokens.json", d.vendor⟩, ⟨"readme", "README.md", d.overview⟩]

/-- What the documents of a run tell. -/
structure Story where
  /-- The colors that are no gradients, by name. -/
  colors : List (String × String)
  spacings : List (String × Binary64)
  /-- The spacings as lengths. -/
  lengths : List (String × String)
  borders : List (String × Binary64)
  /-- The border metrics as lengths. -/
  borderLengths : List (String × String)
  counts : Category → Nat

/-- A text is read as an object with the colors and the spacings of a story under their keys. -/
def Story.InMaps (s : Story) (text : String) : Prop :=
  ∃ j, Json.read text = some j ∧
    j.under? "colors" = some (s.colors.map fun e => (e.1, .string e.2)) ∧
      j.under? "spacing" = some (s.spacings.map fun e => (e.1, .number e.2))

/-- A length and a number of the same name have the same value. -/
def SameLength (l : String × String) (x : String × Binary64) : Prop :=
  l.1 = x.1 ∧ readLength? l.2 = some x.2

/-- A line has a key and a text in quotes. -/
def ShowsText (l e : String × String) : Prop :=
  l.1 = e.1 ∧ Json.read l.2 = some (.string e.2) ∧ '\n' ∉ l.2.toList

/-- The texts in front of the maps of a vendor. -/
def envelopeTexts (ctx : DocumentContext) : List (String × String) :=
  [("version", ctx.schemaVersion), ("name", ctx.documentName)]
    ++ (ctx.generatedAt.map fun t => ("generatedAt", t.text)).toList

/-- The documents of a run tell a story, each in its own notation. -/
structure Accord (ctx : DocumentContext) (d : DocumentTexts) (s : Story) : Prop where
  /-- Among the colors of the complete document are gradients as well, and these are no texts. -/
  complete : ∃ j colors, Json.read d.complete = some j ∧
    j.under? "colors" = some colors ∧ colors.filterMap Json.textMember? = s.colors ∧
      j.under? "spacing" = some (s.spacings.map fun e => (e.1, .number e.2)) ∧
        j.under? "borders" = some (s.borders.map fun e => (e.1, .number e.2)) ∧
          ∀ c : Category, (j.under? c.name).map List.length = some (s.counts c)
  stylesheet : ∃ ds, Stylesheet.read? d.stylesheet = some ds ∧
    ds.filterMap (Stylesheet.Declaration.named? "color-") = s.colors ∧
      ds.filterMap (Stylesheet.Declaration.named? "spacing-") = s.lengths
  tree : ∃ j t, Json.read d.tree = some j ∧ j.get? "tokens" = some t ∧
    t.under? "color" = some (s.colors.map fun e => (e.1, typedEntry "color" e.2)) ∧
      t.under? "spacing" = some (s.lengths.map fun e => (e.1, typedEntry "dimension" e.2)) ∧
        t.under? "borderRadius" =
          some (s.borderLengths.map fun e => (e.1, typedEntry "borderRadius" e.2))
  flat : s.InMaps d.flat
  vendor : s.InMaps d.vendor
  lengths : List.Forall₂ SameLength s.lengths s.spacings
  borderLengths : List.Forall₂ SameLength s.borderLengths s.borders
  /-- The maps of the vendor are the flat maps with some lines in front. -/
  front : ∃ (body : String) (lines : List (String × String)), d.flat = "\x7b\n" ++ body ∧
    d.vendor = "\x7b\n"
      ++ String.join (lines.map fun l => "  \"" ++ l.1 ++ "\": " ++ l.2 ++ ",\n") ++ body ∧
    List.Forall₂ ShowsText lines (envelopeTexts ctx)
  overview : d.overview = String.join
    ((Overview.heading ctx ++ Overview.rows s.counts ++ Overview.ending ctx).map (· ++ "\n"))

/-! ## Readings are unique -/

namespace TokenValue

theorem ReadAs.eq_toJson {v : TokenValue} {j : Json} (h : v.ReadAs j) : j = v.toJson := by
  cases h with
  | color | gradient | number | integer | symbol => rfl
  | @shadow blur alpha offset => cases blur <;> cases offset <;> cases alpha <;> rfl

end TokenValue

namespace TokenTable

variable {t : TokenTable TokenValue}

theorem ReadAs.eq_toJson {j : Json} (h : t.ReadAs j) : j = t.toJson := by
  obtain ⟨members, rfl, hmembers⟩ := h
  have heach := hmembers.imp fun e m hm =>
    show (e.1, e.2.toJson) = m from Prod.ext hm.1.symm hm.2.eq_toJson.symm
  rw [toJson, ← List.forall₂_eq_eq_eq.le _ _ (List.forall₂_map_left_iff.2 heach)]

theorem HasColors.eq {colors : List (String × String)} (h : t.HasColors colors) :
    colors = t.colorEntries := by
  refine List.map_injective_iff.2 ?_ (h.symm.trans t.hasColors)
  rintro ⟨n, hex⟩ ⟨n', hex'⟩ heq
  cases heq
  rfl

theorem HasNumbers.eq {numbers : List (String × Binary64)} (h : t.HasNumbers numbers) :
    numbers = TokenModel.numbersOf t := by
  refine List.map_injective_iff.2 ?_ (h.symm.trans t.hasNumbers)
  rintro ⟨n, x⟩ ⟨n', x'⟩ heq
  cases heq
  rfl

end TokenTable

/-! ## The documents of a model -/

namespace TokenModel

def texts (m : TokenModel) (ctx : DocumentContext) : DocumentTexts where
  complete := m.toJson.pretty
  stylesheet := Stylesheet.rule (Stylesheet.declarations m)
  tree := (Json.object (envelopeMembers ctx ++ [("tokens", typedTree m)])).pretty
  flat := (Json.object (flatMembers m)).pretty
  vendor := (Json.object (envelopeMembers ctx ++ flatMembers m)).pretty
  overview := String.join ((Overview.lines m ctx).map (· ++ "\n"))

def lengthsOf (numbers : List (String × Binary64)) : List (String × String) :=
  numbers.map fun e => (e.1, lengthText e.2)

def story (m : TokenModel) : Story where
  colors := m.scalarColors
  spacings := m.spacingNumbers
  lengths := lengthsOf m.spacingNumbers
  borders := m.borderNumbers
  borderLengths := lengthsOf m.borderNumbers
  counts c := (m.table c).size

theorem sameLength_lengthsOf {numbers : List (String × Binary64)}
    (h : ∀ e ∈ numbers, e.2.isFinite = true) :
    List.Forall₂ SameLength (lengthsOf numbers) numbers := by
  rw [lengthsOf, List.forall₂_map_left_iff, List.forall₂_same]
  exact fun e he => ⟨rfl, readLength?_lengthText (h e he)⟩

end TokenModel

theorem Adapter.ReadsBack.read {a : Adapter} {m : TokenModel} {ctx : DocumentContext}
    {P : Json → Prop} (h : a.ReadsBack m ctx P) {text : String}
    (hrender : a.render m ctx = .ok text) : ∃ j, Json.read text = some j ∧ P j := by
  obtain ⟨body, j, htext, -, hread, -, hP⟩ := h
  rw [hrender] at htext
  cases htext
  exact ⟨j, hread, hP⟩

/-! ### Tables -/

theorem Admissible.isSome_number? {c : Category} {name : String} {value : TokenValue}
    (h : Admissible c name value) (hc : c = .spacing ∨ c = .borders) :
    value.number?.isSome = true := by
  cases h with
  | scale | fontSize => rfl
  | color | gradient | fontWeight | shadow | duration | curve => simp at hc

theorem Admissible.color_or_gradient {name : String} {value : TokenValue}
    (h : Admissible .colors name value) :
    (∃ hex, value = .color hex) ∨ ∃ stops, value = .gradient stops := by
  cases h with
  | color => exact .inl ⟨_, rfl⟩
  | gradient => exact .inr ⟨_, rfl⟩
  | scale _ _ _ hc => simp [scales] at hc

namespace TokenTable

variable {t : TokenTable TokenValue}

theorem toJson_of_numbers (h : ∀ e ∈ t.entries, e.2.number?.isSome = true) :
    t.toJson = .object ((TokenModel.numbersOf t).map fun e => (e.1, .number e.2)) := by
  have hentries := t.hasNumbers
  rw [HasNumbers, List.filter_eq_self.2 h] at hentries
  rw [toJson, hentries, List.map_map]
  rfl

-- Gradients are written as lists, so texts are what is left of colors.
theorem filterMap_textMember?
    (h : ∀ e ∈ t.entries, (∃ hex, e.2 = .color hex) ∨ ∃ stops, e.2 = .gradient stops) :
    (t.entries.map fun e => (e.1, e.2.toJson)).filterMap Json.textMember? = t.colorEntries := by
  rw [List.filterMap_map, colorEntries]
  refine List.filterMap_congr fun e he => ?_
  rcases e with ⟨name, value⟩
  obtain ⟨hex, rfl⟩ | ⟨stops, rfl⟩ := h _ he
  · rfl
  · rfl

end TokenTable

/-! ### The complete document -/

section Model

variable {m : TokenModel} (h : m.Exportable)
  (hm : ∀ c name value, (name, value) ∈ (m.table c).entries → Admissible c name value)

theorem under?_toJson (c : Category) : m.toJson.under? c.name =
    some ((m.table c).entries.map fun e => (e.1, e.2.toJson)) := by
  cases c <;> rfl

include h in
theorem read_complete : Json.read m.toJson.pretty = some m.toJson := by
  obtain ⟨j, hread, colors, typography, spacing, shadows, animations, borders, hj, hcolors,
    htypography, hspacing, hshadows, hanimations, hborders⟩ :=
      (readsBack_complete h ⟨"", "", none, "", []⟩).read rfl
  rw [hcolors.eq_toJson, htypography.eq_toJson, hspacing.eq_toJson, hshadows.eq_toJson,
    hanimations.eq_toJson, hborders.eq_toJson, ← toJson_eq] at hj
  rw [hread, hj]

include hm in
theorem under?_numbers {c : Category} (hc : c = .spacing ∨ c = .borders) :
    m.toJson.under? c.name =
      some ((TokenModel.numbersOf (m.table c)).map fun e => (e.1, .number e.2)) := by
  have hjson := TokenTable.toJson_of_numbers (t := m.table c)
    fun e he => (hm c e.1 e.2 he).isSome_number? hc
  rw [under?_toJson]
  exact congrArg some (Json.object.inj hjson)

include h hm in
theorem accord_complete : ∃ j colors, Json.read m.toJson.pretty = some j ∧
    j.under? "colors" = some colors ∧ colors.filterMap Json.textMember? = m.scalarColors ∧
      j.under? "spacing" = some (m.spacingNumbers.map fun e => (e.1, .number e.2)) ∧
        j.under? "borders" = some (m.borderNumbers.map fun e => (e.1, .number e.2)) ∧
          ∀ c : Category, (j.under? c.name).map List.length = some (m.table c).size := by
  refine ⟨m.toJson, _, read_complete h, under?_toJson .colors,
    TokenTable.filterMap_textMember? fun e he => (hm .colors e.1 e.2 he).color_or_gradient,
    under?_numbers hm (.inl rfl), under?_numbers hm (.inr rfl), fun c => ?_⟩
  rw [under?_toJson, Option.map_some, List.length_map]
  rfl

/-! ### Maps and the tree -/

theorem get?_envelope {key : String} (ctx : DocumentContext) (members : List (String × Json))
    (hkey : key ∉ ["version", "name", "generatedAt"]) :
    (Json.object (envelope ctx ++ members)).get? key = (Json.object members).get? key := by
  simp only [List.mem_cons, List.not_mem_nil, or_false, not_or] at hkey
  unfold envelope Json.get?
  cases ctx.generatedAt <;>
    simp [Ne.symm hkey.1, Ne.symm hkey.2.1, Ne.symm hkey.2.2]

theorem inMaps_of_readsBack {a : Adapter} {ctx : DocumentContext} {front : List (String × Json)}
    {text : String} (hback : a.ReadsBack m ctx (ReadsMaps front m))
    (hrender : a.render m ctx = .ok text)
    (hfront : ∀ members : List (String × Json), ∀ key ∈ ["colors", "spacing"],
      (Json.object (front ++ members)).get? key = (Json.object members).get? key) :
    m.story.InMaps text := by
  obtain ⟨j, hread, colors, numbers, hcolors, hnumbers, rfl⟩ := hback.read hrender
  refine ⟨_, hread, ?_, ?_⟩
  · rw [hcolors.eq, Json.under?, hfront _ _ (by decide)]
    rfl
  · rw [hnumbers.eq, Json.under?, hfront _ _ (by decide)]
    rfl

include h in
theorem accord_flat (ctx : DocumentContext) : m.story.InMaps (m.texts ctx).flat := by
  have hback : flatAdapter.ReadsBack m ctx (ReadsMaps [] m) :=
    readsBack_maps h rfl (by decide) fun e he => absurd he List.not_mem_nil
  exact inMaps_of_readsBack hback rfl fun _ _ _ => rfl

include h in
theorem accord_vendor (ctx : DocumentContext) : m.story.InMaps (m.texts ctx).vendor := by
  have hrender : vendorAdapter.render m ctx =
      .ok (Json.object (envelope ctx ++ flatMembers m)).pretty := by
    rw [← envelopeMembers_eq]
    rfl
  have hback : vendorAdapter.ReadsBack m ctx (ReadsMaps (envelope ctx) m) :=
    readsBack_maps h hrender (nodup_envelope ctx (by decide)) (regular_envelope ctx)
  refine inMaps_of_readsBack hback rfl fun members key hkey => get?_envelope ctx members ?_
  revert key
  decide

include h in
theorem accord_tree (ctx : DocumentContext) : ∃ j t, Json.read (m.texts ctx).tree = some j ∧
    j.get? "tokens" = some t ∧
      t.under? "color" = some (m.scalarColors.map fun e => (e.1, typedEntry "color" e.2)) ∧
        t.under? "spacing" =
          some (m.story.lengths.map fun e => (e.1, typedEntry "dimension" e.2)) ∧
          t.under? "borderRadius" =
            some (m.story.borderLengths.map fun e => (e.1, typedEntry "borderRadius" e.2)) := by
  obtain ⟨j, hread, colors, numbers, borders, hcolors, hnumbers, hborders, rfl⟩ :=
    (readsBack_tree h ctx).read rfl
  refine ⟨_, _, hread, get?_envelope ctx _ (by decide), ?_, ?_, ?_⟩
  · rw [hcolors.eq]
    rfl
  · show some _ = some ((TokenModel.lengthsOf m.spacingNumbers).map _)
    rw [hnumbers.eq, TokenModel.lengthsOf, List.map_map]
    rfl
  · show some _ = some ((TokenModel.lengthsOf m.borderNumbers).map _)
    rw [hborders.eq, TokenModel.lengthsOf, List.map_map]
    rfl

end Model

/-! ### The stylesheet -/

namespace Stylesheet

theorem named?_append (kind name value : String) :
    Declaration.named? kind ⟨kind ++ name, value⟩ = some (name, value) := by
  have hprefix : kind.toList.isPrefixOf (kind ++ name).toList = true := by
    rw [String.toList_append, List.isPrefixOf_iff_prefix]
    exact List.prefix_append _ _
  rw [Declaration.named?, if_pos hprefix, String.toList_append, List.drop_left,
    String.ofList_toList]

theorem named?_other {kind kind' : String} (hk : kind ≠ "") (hk' : kind' ≠ "")
    (h : kind.toList.head? ≠ kind'.toList.head?) (name value : String) :
    Declaration.named? kind ⟨kind' ++ name, value⟩ = none := by
  refine if_neg fun hprefix => ?_
  obtain ⟨rest, hrest⟩ := List.isPrefixOf_iff_prefix.1 hprefix
  apply h
  have hhead := congrArg List.head? hrest
  rw [String.toList_append, head?_kind_append hk, head?_kind_append hk'] at hhead
  exact hhead

-- Declarations of a kind are what they were made of.
theorem filterMap_named? (kind : String) (es : List (String × String)) :
    (es.map fun e => (⟨kind ++ e.1, e.2⟩ : Declaration)).filterMap (Declaration.named? kind) =
      es := by
  rw [List.filterMap_map]
  exact (List.filterMap_congr fun e _ => named?_append kind e.1 e.2).trans List.filterMap_some

theorem filterMap_named?_other {kind kind' : String} (hk : kind ≠ "") (hk' : kind' ≠ "")
    (h : kind.toList.head? ≠ kind'.toList.head?) (es : List (String × String)) :
    (es.map fun e => (⟨kind' ++ e.1, e.2⟩ : Declaration)).filterMap (Declaration.named? kind) =
      [] := by
  rw [List.filterMap_map]
  exact List.filterMap_eq_nil_iff.2 fun e _ => named?_other hk hk' h e.1 e.2

theorem declarations_eq (m : TokenModel) : declarations m =
    m.scalarColors.map (fun e => ⟨"color-" ++ e.1, e.2⟩)
      ++ (TokenModel.lengthsOf m.spacingNumbers).map (fun e => ⟨"spacing-" ++ e.1, e.2⟩)
      ++ (TokenModel.lengthsOf (fontSizes m)).map (fun e => ⟨"font-size-" ++ e.1, e.2⟩) := by
  rw [TokenModel.lengthsOf, TokenModel.lengthsOf, List.map_map, List.map_map]
  rfl

theorem named?_declarations (m : TokenModel) :
    (declarations m).filterMap (Declaration.named? "color-") = m.scalarColors ∧
      (declarations m).filterMap (Declaration.named? "spacing-") =
        TokenModel.lengthsOf m.spacingNumbers := by
  rw [declarations_eq]
  simp only [List.filterMap_append]
  constructor
  · rw [filterMap_named?, filterMap_named?_other (by decide) (by decide) (by decide),
      filterMap_named?_other (by decide) (by decide) (by decide), List.append_nil, List.append_nil]
  · rw [filterMap_named?, filterMap_named?_other (by decide) (by decide) (by decide),
      filterMap_named?_other (by decide) (by decide) (by decide), List.append_nil, List.nil_append]

end Stylesheet

/-! ### Lines in front and the overview -/

theorem forall₂_showsText (es : List (String × String)) :
    List.Forall₂ ShowsText (es.map fun e => (e.1, Json.quote e.2)) es := by
  rw [List.forall₂_map_left_iff, List.forall₂_same]
  exact fun e _ => ⟨rfl, Json.read_quote e.2, Json.newline_not_mem_quote e.2⟩

theorem spreadMembers_texts {es : List (String × String)}
    (h : ∀ e ∈ es, Json.quote e.1 = "\"" ++ e.1 ++ "\"") :
    Json.spreadMembers 1 (es.map fun e => (e.1, .string e.2)) =
      es.map fun e => "  \"" ++ e.1 ++ "\": " ++ Json.quote e.2 := by
  induction es with
  | nil => rfl
  | cons e es ih =>
    have hspread : Json.spread 1 (.string e.2) = Json.quote e.2 := rfl
    have hindent (s : String) : Json.indent 1 ++ ("\"" ++ s) = "  \"" ++ s := by
      rw [← String.append_assoc]
      rfl
    have hcolon (s t : String) : s ++ "\"" ++ ": " ++ t = s ++ "\": " ++ t := by
      rw [@String.append_assoc s]
      rfl
    rw [List.map_cons, Json.spreadMembers, ih fun d hd => h d (List.mem_cons_of_mem e hd), hspread,
      h e List.mem_cons_self, @String.append_assoc "\"", hindent, ← String.append_assoc, hcolon,
      List.map_cons]

theorem envelopeMembers_eq_texts (ctx : DocumentContext) :
    envelopeMembers ctx = (envelopeTexts ctx).map fun e => (e.1, .string e.2) := by
  unfold envelopeMembers envelopeTexts
  cases ctx.generatedAt <;> rfl

-- The keys of an envelope have nothing to escape.
theorem quote_key_envelope (ctx : DocumentContext) :
    ∀ e ∈ envelopeTexts ctx, Json.quote e.1 = "\"" ++ e.1 ++ "\"" := by
  have hkeys : ∀ key ∈ ["version", "name", "generatedAt"], Json.quote key = "\"" ++ key ++ "\"" := by
    decide
  have hsub : (envelopeTexts ctx).map (·.1) ⊆ ["version", "name", "generatedAt"] := by
    unfold envelopeTexts
    cases ctx.generatedAt with
    | none => exact List.subset_append_left ["version", "name"] ["generatedAt"]
    | some t => exact List.Subset.refl _
  exact fun e he => hkeys e.1 (hsub (List.mem_map_of_mem he))

theorem accord_front (m : TokenModel) (ctx : DocumentContext) :
    ∃ (body : String) (lines : List (String × String)), (m.texts ctx).flat = "\x7b\n" ++ body ∧
      (m.texts ctx).vendor = "\x7b\n"
        ++ String.join (lines.map fun l => "  \"" ++ l.1 ++ "\": " ++ l.2 ++ ",\n") ++ body ∧
      List.Forall₂ ShowsText lines (envelopeTexts ctx) := by
  obtain ⟨body, hbody⟩ := Json.exists_body
    ("colors", .object (m.scalarColors.map fun e => (e.1, .string e.2)))
    [("spacing", .object (m.spacingNumbers.map fun e => (e.1, .number e.2)))]
  refine ⟨body, (envelopeTexts ctx).map fun e => (e.1, Json.quote e.2), (hbody []).trans rfl, ?_,
    forall₂_showsText _⟩
  have hvendor := hbody (envelopeMembers ctx)
  rw [envelopeMembers_eq_texts, spreadMembers_texts (quote_key_envelope ctx),
    ← envelopeMembers_eq_texts, List.map_map] at hvendor
  rw [List.map_map]
  exact hvendor

theorem countTotal_map (cs : List Category) (counts : Category → Nat) :
    countTotal (cs.map fun c => (c, counts c)) = (cs.map counts).sum := by
  induction cs with
  | nil => rfl
  | cons c cs ih => rw [List.map_cons, countTotal, ih, List.map_cons, List.sum_cons]

theorem Overview.lines_eq (m : TokenModel) (ctx : DocumentContext) :
    lines m ctx = heading ctx ++ rows m.story.counts ++ ending ctx := by
  have htotal : m.total = (Category.all.map m.story.counts).sum := countTotal_map ..
  unfold lines heading rows ending
  rw [htotal, TokenModel.counts, List.map_map]
  simp only [String.isEmpty_iff]
  cases ctx.generatedAt with
  | none => simp [TokenModel.story]
  | some t => simp [TokenModel.story]

/-! ## The documents of a run -/

theorem TokenModel.accord_texts {m : TokenModel} (h : m.Exportable)
    (hm : ∀ c name value, (name, value) ∈ (m.table c).entries → Admissible c name value)
    (ctx : DocumentContext) : Accord ctx (m.texts ctx) m.story where
  complete := accord_complete h hm
  stylesheet := ⟨Stylesheet.declarations m,
    Stylesheet.read?_rule fun d hd => (Stylesheet.wellFormed_of_mem_declarations hm hd).readable,
    Stylesheet.named?_declarations m⟩
  tree := accord_tree h ctx
  flat := accord_flat h ctx
  vendor := accord_vendor h ctx
  lengths := sameLength_lengthsOf
    (TokenTable.isFinite_of_mem_numbersOf (h.representable .spacing))
  borderLengths := sameLength_lengthsOf
    (TokenTable.isFinite_of_mem_numbersOf (h.representable .borders))
  front := accord_front m ctx
  overview := by
    rw [← Overview.lines_eq]
    rfl

namespace ExportJob

theorem documents_standard (m : TokenModel) (ctx : DocumentContext) :
    documents (Registry.standardAdapters true) m ctx = (m.texts ctx).documents := rfl

theorem failures_standard (m : TokenModel) (ctx : DocumentContext) :
    failures (Registry.standardAdapters true) m ctx = [] := rfl

/-- **The documents of a run tell one story, that of the model.** Whatever source has a token,
whatever the preferences and the time, all six documents are there, and what they show agrees. -/
theorem documents_accord {p : ExportPreferences} (hreadme : p.generateReadme = true)
    (fixed : Option Instant) (source : String) (now : Instant)
    (hmodel : (Library.standard.extract source).build.model.isEmpty = false) :
    ∃ d, ({ standard p with fixedTime := fixed }.render source now).documents = d.documents ∧
      ({ standard p with fixedTime := fixed }.render source now).failures = [] ∧
        Accord ({ standard p with fixedTime := fixed }.context now) d
          (Library.standard.extract source).build.model.story := by
  have hlibrary : ({ standard p with fixedTime := fixed } : ExportJob).library = .standard := by
    rw [standard, withRegistry]
  have hadapters : ({ standard p with fixedTime := fixed } : ExportJob).registry.adapters =
      Registry.standardAdapters true :=
    congrArg Registry.standardAdapters hreadme
  generalize ({ standard p with fixedTime := fixed } : ExportJob) = job at hlibrary hadapters ⊢
  rw [← hlibrary] at hmodel
  obtain ⟨hdocuments, hfailures⟩ := render_of_not_isEmpty hmodel now
  rw [hadapters, documents_standard] at hdocuments
  rw [hadapters, failures_standard] at hfailures
  rw [hlibrary] at hdocuments
  exact ⟨_, hdocuments, hfailures, TokenModel.accord_texts (Library.exportable_extract source)
    (fun _ _ _ => Library.admissible_of_mem_table) _⟩

end ExportJob

def accordSource : String :=
  "Color get ink => const Color(0xFF336699); double get cardRadius => 12.5;"

def accordPreferences : ExportPreferences :=
  ⟨"tokens.dart", "out", "Tokens", "1.0", true, true⟩

theorem ExportJob.documents_accord_sample :
    accordPreferences.generateReadme = true ∧
      (Library.standard.extract accordSource).build.model.isEmpty = false ∧
        ∃ d, ({ standard accordPreferences with fixedTime := none }.render
            accordSource ⟨0, 0⟩).documents = d.documents ∧
          ({ standard accordPreferences with fixedTime := none }.render
            accordSource ⟨0, 0⟩).failures = [] ∧
          Accord ({ standard accordPreferences with fixedTime := none }.context ⟨0, 0⟩) d
            (Library.standard.extract accordSource).build.model.story := by
  have hmodel : (Library.standard.extract accordSource).build.model.isEmpty = false := by
    rw [Library.extract, Scan.hits_standard]
    decide +kernel
  exact ⟨rfl, hmodel, documents_accord rfl none accordSource ⟨0, 0⟩ hmodel⟩

end DesignTokens
