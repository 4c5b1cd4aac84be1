import DesignTokens.Document.Maps
import DesignTokens.Proofs.Extract.WellTyped
import DesignTokens.Proofs.Json.RoundTrip

/-!
# Reading the JSON documents back

A reader of JSON gets from each of the four documents what was exported: the tables in table order,
every value as its kind is written, and the envelope with its texts unchanged, whatever characters
they hold. What is read is spelled out here without the printer and without the projections of the
documents.
-/

namespace DesignTokens

/-! ## What can be exported -/

/-- The numbers of a value are finite, and its milliseconds have 64 bits. -/
def TokenValue.Representable : TokenValue → Prop
  | number x => x.isFinite = true
  | integer n => n < 2 ^ 64
  | shadow s =>
    (∀ x ∈ s.blurRadius, x.isFinite = true) ∧
      (∀ o ∈ s.offset, o.x.isFinite = true ∧ o.y.isFinite = true) ∧
        ∀ x ∈ s.alpha, x.isFinite = true
  | color _ | gradient _ | symbol _ => True

instance : (v : TokenValue) → Decidable v.Representable
  | .number x => inferInstanceAs (Decidable (x.isFinite = true))
  | .integer n => inferInstanceAs (Decidable (n < 2 ^ 64))
  | .shadow _ => inferInstanceAs (Decidable (_ ∧ _ ∧ _))
  | .color _ | .gradient _ | .symbol _ => inferInstanceAs (Decidable True)

/-- A model with distinct names in each table and values that JSON can carry. -/
structure TokenModel.Exportable (m : TokenModel) : Prop where
  distinct : ∀ c, (m.table c).names.Nodup
  representable : ∀ c, ∀ e ∈ (m.table c).entries, e.2.Representable

theorem Library.exportable_extract (source : String) :
    (standard.extract source).build.model.Exportable where
  distinct := standard.nodup_names_extract source
  representable := by
    intro c e he
    have hsound := (wellTyped_of_mem_table he).sound
    rcases e with ⟨name, value⟩
    cases value with
    | color | gradient | symbol => trivial
    | number x => exact hsound.finite
    | integer n => exact hsound
    | shadow s =>
      exact ⟨fun x hx => (hsound.blurRadius x hx).finite, hsound.offset,
        fun x hx => (hsound.alpha x hx).finite⟩

/-! ## What is read -/

/-- No object inside of a value gives a key two values. -/
inductive Json.DistinctKeys : Json → Prop
  | null : DistinctKeys null
  | bool {b : Bool} : DistinctKeys (bool b)
  | integer {n : Int} : DistinctKeys (integer n)
  | number {x : Binary64} : DistinctKeys (number x)
  | string {s : String} : DistinctKeys (string s)
  | array {items : List Json} (h : ∀ v ∈ items, DistinctKeys v) : DistinctKeys (array items)
  | object {members : List (String × Json)} (hkeys : (members.map (·.1)).Nodup)
      (h : ∀ m ∈ members, DistinctKeys m.2) : DistinctKeys (object members)

/-- How a value is read. Of a shadow only the parts are there that are given. -/
inductive TokenValue.ReadAs : TokenValue → Json → Prop
  | color {hex : String} : ReadAs (.color hex) (.string hex)
  | gradient {stops : List String} : ReadAs (.gradient stops) (.array (stops.map .string))
  | number {x : Binary64} : ReadAs (.number x) (.number x)
  | integer {n : Nat} : ReadAs (.integer n) (.integer n)
  | symbol {word : String} : ReadAs (.symbol word) (.string word)
  | shadow {blur alpha : Option Binary64} {offset : Option Offset} :
      ReadAs (.shadow ⟨blur, offset, alpha⟩) (.object
        ((blur.map fun x => ("blurRadius", .number x)).toList
          ++ (offset.map fun o => ("offset", .object [("x", .number o.x), ("y", .number o.y)])).toList
          ++ (alpha.map fun x => ("alpha", .number x)).toList))

/-- How a table is read: its names in table order, each with its value. -/
def TokenTable.ReadAs (t : TokenTable TokenValue) (j : Json) : Prop :=
  ∃ members, j = .object members ∧
    List.Forall₂ (fun e m => m.1 = e.1 ∧ e.2.ReadAs m.2) t.entries members

/-- The entries of a table that are colors and no gradients, in table order. -/
def TokenTable.HasColors (t : TokenTable TokenValue) (colors : List (String × String)) : Prop :=
  (t.entries.filter fun e => e.2.color?.isSome) = colors.map fun e => (e.1, .color e.2)

/-- The entries of a table that are numbers, in table order. -/
def TokenTable.HasNumbers (t : TokenTable TokenValue) (numbers : List (String × Binary64)) : Prop :=
  (t.entries.filter fun e => e.2.number?.isSome) = numbers.map fun e => (e.1, .number e.2)

/-! ## The four documents -/

/-- What the complete document is read as: the six categories in canonical order. -/
def ReadsComplete (m : TokenModel) (j : Json) : Prop :=
  ∃ colors typography spacing shadows animations borders,
    j = .object [("colors", colors), ("typography", typography), ("spacing", spacing),
      ("shadows", shadows), ("animations", animations), ("borders", borders)] ∧
      m.colors.ReadAs colors ∧ m.typography.ReadAs typography ∧ m.spacing.ReadAs spacing ∧
        m.shadows.ReadAs shadows ∧ m.animations.ReadAs animations ∧ m.borders.ReadAs borders

/-- What the flat maps are read as, behind some other members. -/
def ReadsMaps (front : List (String × Json)) (m : TokenModel) (j : Json) : Prop :=
  ∃ colors numbers, m.colors.HasColors colors ∧ m.spacing.HasNumbers numbers ∧
    j = .object (front ++
      [("colors", .object (colors.map fun e => (e.1, .string e.2))),
        ("spacing", .object (numbers.map fun e => (e.1, .number e.2)))])

def envelope (ctx : DocumentContext) : List (String × Json) :=
  [("version", .string ctx.schemaVersion), ("name", .string ctx.documentName)]
    ++ (ctx.generatedAt.map fun t => ("generatedAt", .string t.text)).toList

def typedEntry (kind value : String) : Json :=
  .object [("value", .string value), ("type", .string kind)]

/-- What the typed tree is read as, behind its envelope. -/
def ReadsTree (m : TokenModel) (ctx : DocumentContext) (j : Json) : Prop :=
  ∃ colors numbers borders, m.colors.HasColors colors ∧ m.spacing.HasNumbers numbers ∧
    m.borders.HasNumbers borders ∧
      j = .object (envelope ctx ++ [("tokens", .object
        [("color", .object (colors.map fun e => (e.1, typedEntry "color" e.2))),
          ("spacing", .object
            (numbers.map fun e => (e.1, typedEntry "dimension" (lengthText e.2)))),
          ("borderRadius", .object
            (borders.map fun e => (e.1, typedEntry "borderRadius" (lengthText e.2))))])])

/-- An adapter renders a text that ends with exactly one line feed, and reading it gives a value
without repeated keys of which `P` is true. -/
def Adapter.ReadsBack (a : Adapter) (m : TokenModel) (ctx : DocumentContext) (P : Json → Prop) :
    Prop :=
  ∃ body j, a.render m ctx = .ok (body ++ "\n") ∧ body.toList.getLast? ≠ some '\n' ∧
    Json.read (body ++ "\n") = some j ∧ j.DistinctKeys ∧ P j

/-! ## Values that are read back -/

namespace Json

/-- A value that can be printed and read, without repeated keys. -/
structure Regular (v : Json) : Prop where
  representable : v.Representable
  distinct : v.DistinctKeys

namespace Regular

theorem string {s : String} : Regular (.string s) := ⟨.string, .string⟩

theorem number {x : Binary64} (h : x.isFinite = true) : Regular (.number x) := ⟨.number h, .number⟩

theorem object {members : List (String × Json)} (hkeys : (members.map (·.1)).Nodup)
    (h : ∀ m ∈ members, Regular m.2) : Regular (.object members) :=
  ⟨.object fun m hm => (h m hm).representable, .object hkeys fun m hm => (h m hm).distinct⟩

-- An object made of the entries of a list.
theorem objectOf {α : Type} {es : List (String × α)} {f : α → Json}
    (hnames : (es.map (·.1)).Nodup) (h : ∀ e ∈ es, Regular (f e.2)) :
    Regular (.object (es.map fun e => (e.1, f e.2))) := by
  refine object ?_ ?_
  · rw [List.map_map]
    exact hnames
  · intro m hm
    obtain ⟨e, he, rfl⟩ := List.mem_map.1 hm
    exact h e he

end Regular

-- The text of an object ends with its bracket.
theorem getLast?_spread_object (members : List (String × Json)) (depth : Nat) :
    (spread depth (.object members)).toList.getLast? = some '\x7d' := by
  cases members with
  | nil =>
    rw [spread]
    rfl
  | cons m members =>
    have htext : (spread depth (.object (m :: members))).toList =
        ('\x7b' :: '\n' ::
          (separator.intercalate ((spreadMembers (depth + 1) (m :: members)).map String.toList)
            ++ '\n' :: (indent depth).toList)) ++ ['\x7d'] := by
      rw [toList_spread_object, closing]
      simp only [List.cons_append, List.append_assoc]
    rw [htext, List.getLast?_concat]

theorem readsBack_of_regular {a : Adapter} {m : TokenModel} {ctx : DocumentContext}
    {P : Json → Prop} {members : List (String × Json)}
    (hrender : a.render m ctx = .ok (Json.object members).pretty)
    (hregular : Regular (.object members)) (hP : P (.object members)) : a.ReadsBack m ctx P := by
  refine ⟨spread 0 (.object members), .object members, hrender, ?_,
    read_pretty hregular.representable, hregular.distinct, hP⟩
  rw [getLast?_spread_object]
  decide

end Json

theorem Offset.regular_point {o : Offset} (h : o.x.isFinite = true ∧ o.y.isFinite = true) :
    (Json.object [("x", .number o.x), ("y", .number o.y)]).Regular := by
  refine .object (show ["x", "y"].Nodup by decide) ?_
  intro m hm
  simp only [List.mem_cons, List.not_mem_nil, or_false] at hm
  rcases hm with rfl | rfl
  · exact .number h.1
  · exact .number h.2

theorem Shadow.regular_toJson (s : Shadow) (h : (TokenValue.shadow s).Representable) :
    s.toJson.Regular := by
  obtain ⟨hblur, hoffset, halpha⟩ := h
  rcases s with ⟨blur, offset, alpha⟩
  refine .object ?_ ?_
  · cases blur <;> cases offset <;> cases alpha <;> simp
  · intro m hm
    simp only [List.mem_append] at hm
    rcases hm with (hm | hm) | hm
    · cases blur with
      | none => cases hm
      | some x =>
        rw [List.mem_singleton.1 hm]
        exact .number (hblur x rfl)
    · cases offset with
      | none => cases hm
      | some o =>
        rw [List.mem_singleton.1 hm]
        exact Offset.regular_point (hoffset o rfl)
    · cases alpha with
      | none => cases hm
      | some x =>
        rw [List.mem_singleton.1 hm]
        exact .number (halpha x rfl)

namespace TokenValue

theorem readAs_toJson (v : TokenValue) : v.ReadAs v.toJson := by
  cases v with
  | color => exact .color
  | gradient => exact .gradient
  | number => exact .number
  | integer => exact .integer
  | symbol => exact .symbol
  | shadow s =>
    have hshadow := @ReadAs.shadow s.blurRadius s.alpha s.offset
    rcases s with ⟨_ | blur, _ | offset, _ | alpha⟩ <;> exact hshadow

theorem regular_toJson {v : TokenValue} (h : v.Representable) : v.toJson.Regular := by
  cases v with
  | color | symbol => exact .string
  | gradient stops =>
    have hall : ∀ j ∈ stops.map Json.string, j.Regular := by
      intro j hj
      obtain ⟨s, -, rfl⟩ := List.mem_map.1 hj
      exact .string
    exact ⟨.array fun j hj => (hall j hj).representable, .array fun j hj => (hall j hj).distinct⟩
  | number x => exact .number h
  | integer n =>
    have hsmall : n < 2 ^ 64 := h
    exact ⟨.integer (by omega) (by omega), .integer⟩
  | shadow s => exact s.regular_toJson h

end TokenValue

/-! ## Tables and projections -/

namespace TokenTable

variable {t : TokenTable TokenValue}

def toJson (t : TokenTable TokenValue) : Json :=
  .object (t.entries.map fun e => (e.1, e.2.toJson))

theorem readAs_toJson (t : TokenTable TokenValue) : t.ReadAs t.toJson := by
  refine ⟨_, rfl, ?_⟩
  rw [List.forall₂_map_right_iff]
  exact List.forall₂_same.2 fun e _ => ⟨rfl, e.2.readAs_toJson⟩

theorem regular_toJson (hnames : t.names.Nodup)
    (h : ∀ e ∈ t.entries, e.2.Representable) : t.toJson.Regular :=
  .objectOf hnames fun e he => TokenValue.regular_toJson (h e he)

def colorEntries (t : TokenTable TokenValue) : List (String × String) :=
  t.entries.filterMap Stylesheet.colorOf?

theorem hasColors (t : TokenTable TokenValue) : t.HasColors t.colorEntries := by
  unfold HasColors colorEntries
  rw [← Stylesheet.filter_isSome_eq_map Stylesheet.eq_of_colorOf?]
  congr 1
  funext e
  exact (Option.isSome_map ..).symm

theorem hasNumbers (t : TokenTable TokenValue) : t.HasNumbers (TokenModel.numbersOf t) := by
  have hnumbers : TokenModel.numbersOf t = t.entries.filterMap Stylesheet.numberOf? := rfl
  unfold HasNumbers
  rw [hnumbers, ← Stylesheet.filter_isSome_eq_map Stylesheet.eq_of_numberOf?]
  congr 1
  funext e
  exact (Option.isSome_map ..).symm

theorem nodup_colorEntries (h : t.names.Nodup) : (t.colorEntries.map (·.1)).Nodup :=
  Stylesheet.nodup_of_filterMap ""
    (fun e b heq => by rw [Stylesheet.eq_of_colorOf? e b heq, String.append_empty]) h

theorem nodup_numbersOf (h : t.names.Nodup) : ((TokenModel.numbersOf t).map (·.1)).Nodup :=
  Stylesheet.nodup_of_filterMap ""
    (fun e b heq => by rw [Stylesheet.eq_of_numberOf? e b heq, String.append_empty]) h

theorem isFinite_of_mem_numbersOf (h : ∀ e ∈ t.entries, e.2.Representable) :
    ∀ b ∈ TokenModel.numbersOf t, b.2.isFinite = true := by
  intro b hb
  have hnumbers : TokenModel.numbersOf t = t.entries.filterMap Stylesheet.numberOf? := rfl
  rw [hnumbers] at hb
  exact h _ (Stylesheet.mem_of_mem_filterMap Stylesheet.eq_of_numberOf? hb)

end TokenTable

/-! ## Documents -/

section Documents

variable {m : TokenModel} (h : m.Exportable)
include h

omit h in
theorem toJson_eq (m : TokenModel) :
    m.toJson = .object [("colors", m.colors.toJson), ("typography", m.typography.toJson),
      ("spacing", m.spacing.toJson), ("shadows", m.shadows.toJson),
      ("animations", m.animations.toJson), ("borders", m.borders.toJson)] := rfl

theorem readsBack_complete (ctx : DocumentContext) :
    completeAdapter.ReadsBack m ctx (ReadsComplete m) := by
  have htable (c : Category) : (m.table c).toJson.Regular :=
    TokenTable.regular_toJson (h.distinct c) (h.representable c)
  have hrender : completeAdapter.render m ctx = .ok m.toJson.pretty := rfl
  rw [toJson_eq] at hrender
  refine Json.readsBack_of_regular hrender ?_ ?_
  · refine .object (show ["colors", "typography", "spacing", "shadows", "animations",
      "borders"].Nodup by decide) ?_
    intro e he
    simp only [List.mem_cons, List.not_mem_nil, or_false] at he
    rcases he with rfl | rfl | rfl | rfl | rfl | rfl
    · exact htable .colors
    · exact htable .typography
    · exact htable .spacing
    · exact htable .shadows
    · exact htable .animations
    · exact htable .borders
  · exact ⟨_, _, _, _, _, _, rfl, m.colors.readAs_toJson, m.typography.readAs_toJson,
      m.spacing.readAs_toJson, m.shadows.readAs_toJson, m.animations.readAs_toJson,
      m.borders.readAs_toJson⟩

theorem regular_colors : (Json.object (m.colors.colorEntries.map fun e => (e.1, .string e.2))).Regular :=
  .objectOf (TokenTable.nodup_colorEntries (h.distinct .colors)) fun _ _ => .string

-- The flat maps behind members that keep out of their way.
theorem readsBack_maps {a : Adapter} {ctx : DocumentContext} {front : List (String × Json)}
    (hrender : a.render m ctx = .ok (Json.object (front ++ flatMembers m)).pretty)
    (hkeys : (front.map (·.1) ++ ["colors", "spacing"]).Nodup)
    (hfront : ∀ e ∈ front, e.2.Regular) : a.ReadsBack m ctx (ReadsMaps front m) := by
  have hnumbers := TokenTable.isFinite_of_mem_numbersOf (h.representable .spacing)
  refine Json.readsBack_of_regular hrender (.object ?_ ?_) ⟨_, _, m.colors.hasColors,
    m.spacing.hasNumbers, rfl⟩
  · rw [List.map_append]
    exact hkeys
  · intro e he
    rcases List.mem_append.1 he with he | he
    · exact hfront e he
    · simp only [flatMembers, List.mem_cons, List.not_mem_nil, or_false] at he
      rcases he with rfl | rfl
      · exact regular_colors h
      · exact .objectOf (TokenTable.nodup_numbersOf (h.distinct .spacing)) fun b hb =>
          .number (hnumbers b hb)

omit h in
theorem regular_envelope (ctx : DocumentContext) : ∀ e ∈ envelope ctx, e.2.Regular := by
  intro e he
  rw [envelope] at he
  rcases List.mem_append.1 he with he | he
  · simp only [List.mem_cons, List.not_mem_nil, or_false] at he
    rcases he with rfl | rfl
    · exact .string
    · exact .string
  · rw [Option.mem_toList, Option.map_eq_some_iff] at he
    obtain ⟨t, -, rfl⟩ := he
    exact .string

omit h in
theorem envelopeMembers_eq (ctx : DocumentContext) : envelopeMembers ctx = envelope ctx := by
  unfold envelopeMembers envelope
  cases ctx.generatedAt <;> rfl

omit h in
-- The keys of an envelope are fixed, and others may stand behind them.
theorem nodup_envelope (ctx : DocumentContext) {keys : List String}
    (hkeys : (["version", "name", "generatedAt"] ++ keys).Nodup) :
    ((envelope ctx).map (·.1) ++ keys).Nodup := by
  refine hkeys.sublist (List.Sublist.append_right ?_ keys)
  unfold envelope
  cases ctx.generatedAt with
  | none => exact List.Sublist.append_left (List.nil_sublist ["generatedAt"]) ["version", "name"]
  | some t => exact List.Sublist.refl _

theorem readsBack_tree (ctx : DocumentContext) :
    designToolAdapter.ReadsBack m ctx (ReadsTree m ctx) := by
  have hentry (kind value : String) : (typedEntry kind value).Regular := by
    refine .object (show ["value", "type"].Nodup by decide) ?_
    intro e he
    simp only [List.mem_cons, List.not_mem_nil, or_false] at he
    rcases he with rfl | rfl
    · exact .string
    · exact .string
  have htree : (typedTree m).Regular := by
    refine .object (show ["color", "spacing", "borderRadius"].Nodup by decide) ?_
    intro e he
    simp only [List.mem_cons, List.not_mem_nil, or_false] at he
    rcases he with rfl | rfl | rfl
    · exact .objectOf (f := typedEntry "color")
        (TokenTable.nodup_colorEntries (h.distinct .colors)) fun _ _ => hentry _ _
    · exact .objectOf (f := fun x => typedEntry "dimension" (lengthText x))
        (TokenTable.nodup_numbersOf (h.distinct .spacing)) fun _ _ => hentry _ _
    · exact .objectOf (f := fun x => typedEntry "borderRadius" (lengthText x))
        (TokenTable.nodup_numbersOf (h.distinct .borders)) fun _ _ => hentry _ _
  have hrender : designToolAdapter.render m ctx =
      .ok (Json.object (envelope ctx ++ [("tokens", typedTree m)])).pretty := by
    rw [← envelopeMembers_eq]
    rfl
  refine Json.readsBack_of_regular hrender (.object ?_ ?_) ⟨_, _, _, m.colors.hasColors,
    m.spacing.hasNumbers, m.borders.hasNumbers, rfl⟩
  · rw [List.map_append]
    exact nodup_envelope ctx
      (show ["version", "name", "generatedAt", "tokens"].Nodup by decide)
  · intro e he
    rcases List.mem_append.1 he with he | he
    · exact regular_envelope ctx e he
    · rw [List.mem_singleton.1 he]
      exact htree

/-- **Every JSON document is read as exactly what was exported.** -/
theorem documents_readBack (ctx : DocumentContext) :
    completeAdapter.ReadsBack m ctx (ReadsComplete m) ∧
      flatAdapter.ReadsBack m ctx (ReadsMaps [] m) ∧
        vendorAdapter.ReadsBack m ctx (ReadsMaps (envelope ctx) m) ∧
          designToolAdapter.ReadsBack m ctx (ReadsTree m ctx) := by
  have hvendor : vendorAdapter.render m ctx =
      .ok (Json.object (envelope ctx ++ flatMembers m)).pretty := by
    rw [← envelopeMembers_eq]
    rfl
  refine ⟨readsBack_complete h ctx, ?_, ?_, readsBack_tree h ctx⟩
  · exact readsBack_maps h rfl (by decide) fun e he => absurd he List.not_mem_nil
  · exact readsBack_maps h hvendor (nodup_envelope ctx (by decide)) (regular_envelope ctx)

end Documents

/-- A model with a value of each kind. -/
def documentSample : TokenModel :=
  (((((TokenModel.empty.insert .colors "ink" (.color "#10203040")).insert .colors "dusk_gradient"
    (.gradient ["#102030", "#FFFFFF"])).insert .spacing "gap" (.number (.ofDecimal false 75 (-1)))
      ).insert .animations "fade_duration" (.integer 18446744073709551615)).insert .animations
        "fade_curve" (.symbol "easeIn")).insert .shadows "card"
          (.shadow ⟨none, some ⟨.zero, (Binary64.ofDecimal false 1 22).neg⟩, none⟩)

theorem documents_readBack_sample :
    documentSample.Exportable ∧
      designToolAdapter.ReadsBack documentSample ⟨"say \"hi\"\n", "1.0", none, "", []⟩
        (ReadsTree documentSample ⟨"say \"hi\"\n", "1.0", none, "", []⟩) :=
  have h : documentSample.Exportable := {
    distinct := by
      intro c
      cases c <;> decide
    representable := by
      intro c
      cases c <;> decide +kernel }
  ⟨h, (documents_readBack h _).2.2.2⟩

end DesignTokens
