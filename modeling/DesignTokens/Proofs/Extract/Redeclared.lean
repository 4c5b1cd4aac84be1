import DesignTokens.Proofs.Extract.Fold

/-!
# Declarations that are repeated

A declaration replaces an earlier one of the same token name by name. A declaration of most shapes
binds one name, and then nothing is left of the earlier one. A text style binds a name for each of
its parts that is there, so a part that the later style does not have stays as the earlier one had
it, unless another hit binds it again.
-/

namespace DesignTokens

open TokenTable (lastBinding lastBinding_append lastBinding_eq_none_iff)

/-! ## The names of a hit -/

namespace Hit

/-- The names that a hit binds, in order. -/
def names (h : Hit) : List String :=
  h.bindings.map (·.1)

/-- The name that stands for the value of a hit, if it is no text style. -/
def key (h : Hit) : String :=
  h.name ++ match h.shape with
    | .gradient => "_gradient"
    | .duration => "_duration"
    | .curve => "_curve"
    | .hex | .numeric | .textStyle | .shadow => ""

/-- A part that is there and is not complained about has a value. -/
theorem PartMeans.isSome_of_clean {α : Type} {h : Hit} {part : Pattern}
    {read : List Char → Option α} {code : LogCode} {message : String} {value : Option α}
    {ws : List BuildWarning} (hm : h.PartMeans part read code message value ws) (hclean : ws = [])
    (hpart : Detail.find? part h.body ≠ none) : value.isSome = true := by
  cases hm with
  | missing hf => exact absurd hf hpart
  | readable => rfl
  | malformed => cases hclean

variable {h : Hit} {bs : List (String × TokenValue)} {ws : List BuildWarning}

/-- A hit that is no text style binds its one name, or there is something to complain about. -/
theorem Means.map_fst_eq (hm : h.Means bs ws) (hs : h.shape ≠ .textStyle) :
    bs.map (·.1) = [h.key] ∨ bs = [] ∧ ws ≠ [] := by
  cases hm with
  | color hs' | gradient hs' | number hs' | shadow hs' | duration hs' | curve hs' =>
    simp [key, hs']
  | malformedColor | malformedNumber | malformedDuration => exact .inr ⟨rfl, List.cons_ne_nil _ _⟩
  | textStyle hs' => exact absurd hs' hs

/-- A text style binds names for its size and its weight only. -/
theorem Means.eq_of_mem_textStyle (hm : h.Means bs ws) (hs : h.shape = .textStyle) {name : String}
    (hname : name ∈ bs.map (·.1)) :
    name = h.name ++ "_fontSize" ∨ name = h.name ++ "_fontWeight" := by
  cases hm with
  | @textStyle size _ _ _ =>
    cases size <;> cases Detail.find? Detail.fontWeight h.body <;> simp at hname <;> tauto
  | _ hs' => simp [hs] at hs'

/-- A text style without complaints binds a name for each of its parts. -/
theorem Means.mem_of_clean_textStyle (hm : h.Means bs ws) (hs : h.shape = .textStyle)
    (hclean : ws = []) :
    (Detail.find? Detail.fontSize h.body ≠ none → h.name ++ "_fontSize" ∈ bs.map (·.1)) ∧
      (Detail.find? Detail.fontWeight h.body ≠ none → h.name ++ "_fontWeight" ∈ bs.map (·.1)) := by
  cases hm with
  | @textStyle size _ _ hsize =>
    refine ⟨fun hpart => ?_, fun hpart => ?_⟩
    · obtain ⟨x, rfl⟩ := Option.isSome_iff_exists.1 (hsize.isSome_of_clean hclean hpart)
      simp
    · obtain ⟨w, hw⟩ := Option.ne_none_iff_exists'.1 hpart
      simp [hw]
  | _ hs' => simp [hs] at hs'

/-! ## A hit behind another one -/

/-- A hit that declares once more what another one has declared. -/
structure Redeclares (b a : Hit) : Prop where
  category : b.category = a.category
  rule : b.rule = a.rule
  shape : b.shape = a.shape
  name : b.name = a.name

variable {a b : Hit}

theorem Redeclares.names_subset (hagain : b.Redeclares a) (hclean : b.warnings = [])
    (hs : a.shape ≠ .textStyle) : a.names ⊆ b.names := by
  have hkey : b.key = a.key := by rw [key, key, hagain.name, hagain.shape]
  have hb : b.names = [a.key] := by
    rcases b.means.map_fst_eq (hagain.shape ▸ hs) with hb | ⟨-, hb⟩
    · rw [names, hb, hkey]
    · exact absurd hclean hb
  rcases a.means.map_fst_eq hs with ha | ⟨ha, -⟩
  · rw [names, ha, hb]
    exact List.Subset.refl _
  · rw [names, ha]
    exact List.nil_subset _

/-- A name that is not bound again belongs to a part that the later text style does not have. -/
theorem Redeclares.part_missing (hagain : b.Redeclares a) (hclean : b.warnings = [])
    {name : String} (ha : name ∈ a.names) (hb : name ∉ b.names) :
    a.shape = .textStyle ∧
      (name = a.name ++ "_fontSize" ∧ Detail.find? Detail.fontSize b.body = none ∨
        name = a.name ++ "_fontWeight" ∧ Detail.find? Detail.fontWeight b.body = none) := by
  have hs : a.shape = .textStyle := by
    by_contra hs
    exact hb (hagain.names_subset hclean hs ha)
  obtain ⟨hsize, hweight⟩ := b.means.mem_of_clean_textStyle (hagain.shape.trans hs) hclean
  rw [hagain.name] at hsize hweight
  refine ⟨hs, ?_⟩
  rcases a.means.eq_of_mem_textStyle hs ha with rfl | rfl
  · exact .inl ⟨rfl, by_contra fun hpart => hb (hsize hpart)⟩
  · exact .inr ⟨rfl, by_contra fun hpart => hb (hweight hpart)⟩

/-- A hit binds a name that none of the hits behind it binds again. -/
def Outlasts (a : Hit) (behind : List Hit) (c : Category) (name : String) : Prop :=
  a.category = c ∧ name ∈ a.names ∧ name ∉ (bindingsIn c behind).map (·.1)

end Hit

/-! ## Building without the earlier hit -/

namespace Build

theorem get?_ofHits (hits : List Hit) (c : Category) (name : String) :
    (ofHits hits).model.get? c name = lastBinding name (bindingsIn c hits) := by
  rw [TokenModel.get?, table_model_ofHits, TokenTable.get?_ofBindings]

theorem nodup_names_ofHits (hits : List Hit) (c : Category) :
    ((ofHits hits).model.table c).names.Nodup := by
  rw [table_model_ofHits]
  exact TokenTable.nodup_names_ofBindings _

variable {before behind : List Hit} {a b : Hit} {c : Category} {name : String}

/-- A hit counts for a name only if none of the hits behind it binds it. -/
theorem get?_append_cons : (ofHits (before ++ a :: behind)).model.get? c name =
    (lastBinding name (bindingsIn c behind)).or
      ((lastBinding name (if a.category = c then a.bindings else [])).or
        ((ofHits before).model.get? c name)) := by
  rw [get?_ofHits, get?_ofHits, bindingsIn_append, bindingsIn_cons, lastBinding_append,
    lastBinding_append, Option.or_assoc]

theorem get?_append : (ofHits (before ++ behind)).model.get? c name =
    (lastBinding name (bindingsIn c behind)).or ((ofHits before).model.get? c name) := by
  rw [get?_ofHits, get?_ofHits, bindingsIn_append, lastBinding_append]

theorem get?_of_outlasts (h : a.Outlasts behind c name) :
    (ofHits (before ++ a :: behind)).model.get? c name = lastBinding name a.bindings ∧
      (ofHits (before ++ behind)).model.get? c name = (ofHits before).model.get? c name := by
  obtain ⟨hc, ha, hbehind⟩ := h
  have hown : lastBinding name a.bindings ≠ none := fun hnone =>
    lastBinding_eq_none_iff.1 hnone ha
  rw [get?_append_cons, get?_append, lastBinding_eq_none_iff.2 hbehind, if_pos hc, Option.none_or,
    Option.none_or]
  exact ⟨Option.or_of_isSome (Option.isSome_iff_ne_none.2 hown), rfl⟩

theorem get?_of_not_outlasts (h : ¬ a.Outlasts behind c name) :
    (ofHits (before ++ behind)).model.get? c name =
      (ofHits (before ++ a :: behind)).model.get? c name := by
  rw [get?_append_cons, get?_append]
  cases hbehind : lastBinding name (bindingsIn c behind) with
  | some value => rfl
  | none =>
    -- nothing behind binds the name, so the hit itself does not bind it either
    have hown : lastBinding name (if a.category = c then a.bindings else []) = none := by
      split
      · rename_i hc
        exact lastBinding_eq_none_iff.2 fun ha => h ⟨hc, ha, lastBinding_eq_none_iff.1 hbehind⟩
      · rfl
    rw [hown, Option.none_or, Option.none_or]

/-- A later declaration of the same token leaves nothing of a name that it binds. -/
theorem not_mem_names_of_outlasts (hb : b ∈ behind) (hagain : b.Redeclares a)
    (h : a.Outlasts behind c name) : name ∉ b.names := by
  obtain ⟨hc, -, hbehind⟩ := h
  intro hname
  obtain ⟨e, he, rfl⟩ := List.mem_map.1 hname
  refine hbehind (List.mem_map.2 ⟨e, ?_, rfl⟩)
  have hkept : b ∈ behind.filter fun h => h.category = c :=
    List.mem_filter.2 ⟨hb, decide_eq_true (hagain.category.trans hc)⟩
  exact List.mem_flatMap.2 ⟨b, hkept, he⟩

end Build

/-- What becomes of a hit that a later one declares once more: `rest` is built without it, `whole`
with it. -/
structure Hit.Replaced (a b : Hit) (before behind : List Hit) (rest whole : TokenModel) :
    Prop where
  /-- Nothing is left of it if the later hit binds all of its names, -/
  perm : a.names ⊆ b.names → ∀ c, (rest.table c).entries.Perm (whole.table c).entries
  /-- which is so unless a text style has lost its size or its weight. -/
  missing : ∀ name ∈ a.names, name ∉ b.names → a.shape = .textStyle ∧
    (name = a.name ++ "_fontSize" ∧ Detail.find? Detail.fontSize b.body = none ∨
      name = a.name ++ "_fontWeight" ∧ Detail.find? Detail.fontWeight b.body = none)
  /-- What is left are names that no hit behind it binds; they keep the values that it gave them. -/
  left : ∀ c name, a.Outlasts behind c name → name ∉ b.names ∧
    whole.get? c name = lastBinding name a.bindings ∧
    rest.get? c name = (Build.ofHits before).model.get? c name
  other : ∀ c name, ¬ a.Outlasts behind c name → rest.get? c name = whole.get? c name

/-- **A declaration that is repeated is replaced**, but for the parts of a text style that the later
one does not have. -/
theorem Build.replaced_eraseIdx {hits : List Hit} {i j : Nat} {a b : Hit} (hij : i < j)
    (ha : hits[i]? = some a) (hb : hits[j]? = some b) (hagain : b.Redeclares a)
    (hclean : (ofHits [b]).warnings = []) :
    a.Replaced b (hits.take i) (hits.drop (i + 1)) (ofHits (hits.eraseIdx i)).model
      (ofHits hits).model := by
  obtain ⟨hi, ha⟩ := List.getElem?_eq_some_iff.1 ha
  have hwhole : hits = hits.take i ++ a :: hits.drop (i + 1) := by
    rw [← ha, List.getElem_cons_drop, List.take_append_drop]
  have hbehind : b ∈ hits.drop (i + 1) := by
    refine List.mem_of_getElem? (i := j - (i + 1)) ?_
    rw [List.getElem?_drop, Nat.add_sub_cancel' hij, hb]
  have hclean : b.warnings = [] := by simpa [warnings_ofHits] using hclean
  rw [List.eraseIdx_eq_take_drop_succ]
  generalize hits.take i = before at hwhole ⊢
  generalize hits.drop (i + 1) = behind at hwhole hbehind ⊢
  subst hwhole
  refine ⟨fun hsubset c => ?_, fun name => hagain.part_missing hclean, fun c name hleft => ?_,
    fun c name hleft => get?_of_not_outlasts hleft⟩
  · refine TokenTable.perm_entries_of_get?_eq (nodup_names_ofHits _ c) (nodup_names_ofHits _ c)
      fun name => get?_of_not_outlasts fun hleft => ?_
    exact not_mem_names_of_outlasts hbehind hagain hleft (hsubset hleft.2.1)
  · exact ⟨not_mem_names_of_outlasts hbehind hagain hleft, get?_of_outlasts hleft⟩

/-- A text style with a body. -/
def Hit.ofStyle (name body : String) (line : Nat) : Hit :=
  ⟨.typography, "text_style", .textStyle, name, [body], line⟩

/-- A text style that has both parts is replaced as a whole by one that has both, whatever stands
between them. -/
theorem Build.replaced_eraseIdx_both :
    let hits := [Hit.ofStyle "body" "fontSize: 16, fontWeight: FontWeight.w400" 1,
      ⟨.typography, "font_scale", .numeric, "fontSizeLg", ["20"], 2⟩,
      Hit.ofStyle "body" "fontWeight: FontWeight.bold, fontSize: 18" 3]
    (ofHits [Hit.ofStyle "body" "fontWeight: FontWeight.bold, fontSize: 18" 3]).warnings = [] ∧
      (∀ c, ((ofHits (hits.eraseIdx 0)).model.table c).entries.Perm
        ((ofHits hits).model.table c).entries) ∧
      ((ofHits (hits.eraseIdx 0)).model.table .typography).entries
        ≠ ((ofHits hits).model.table .typography).entries := by
  intro hits
  have hclean : (ofHits [Hit.ofStyle "body" "fontWeight: FontWeight.bold, fontSize: 18" 3]).warnings
      = [] := by decide +kernel
  have hreplaced := @replaced_eraseIdx hits 0 2 _ _ (by decide) rfl rfl ⟨rfl, rfl, rfl, rfl⟩ hclean
  exact ⟨hclean, hreplaced.perm (by decide +kernel), by decide +kernel⟩

/-- The weight of a text style stays although a later style of the same name has none. -/
theorem Build.weight_outlasts_style :
    let earlier := Hit.ofStyle "body" "fontSize: 16, fontWeight: FontWeight.w400" 1
    let later := Hit.ofStyle "body" "fontSize: 18" 2
    later.Redeclares earlier ∧ (ofHits [later]).warnings = [] ∧
      (ofHits [earlier, later]).model.get? .typography "body_fontWeight" = some (.symbol "w400") ∧
      (ofHits ([earlier, later].eraseIdx 0)).model.get? .typography "body_fontWeight" = none := by
  refine ⟨⟨rfl, rfl, rfl, rfl⟩, ?_, ?_, ?_⟩ <;> decide +kernel

end DesignTokens
