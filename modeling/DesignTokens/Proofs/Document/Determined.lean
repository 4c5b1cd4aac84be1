import DesignTokens.Proofs.Document.Accord

/-!
# The complete document determines the model

Values are written without a mark of their kind, so two models can have one complete document: a
color and a word are both written as a text. The models of two sources cannot. A category has either
colors or words, a number never looks like milliseconds, and the rest of a document is read back as
it was.
-/

namespace DesignTokens

/-! ## Values -/

namespace Shadow

theorem get?_blurRadius (s : Shadow) :
    s.toJson.get? "blurRadius" = s.blurRadius.map Json.number := by
  rcases s with ⟨_ | blur, _ | offset, _ | alpha⟩ <;> rfl

theorem get?_offset (s : Shadow) : s.toJson.get? "offset" =
    s.offset.map fun o => .object [("x", .number o.x), ("y", .number o.y)] := by
  rcases s with ⟨_ | blur, _ | offset, _ | alpha⟩ <;> rfl

theorem get?_alpha (s : Shadow) : s.toJson.get? "alpha" = s.alpha.map Json.number := by
  rcases s with ⟨_ | blur, _ | offset, _ | alpha⟩ <;> rfl

/-- A part that is missing is not written, so the keys tell which parts are there. -/
theorem toJson_injective : Function.Injective toJson := by
  intro s t h
  have hnumber : Function.Injective Json.number := fun x y hxy => Json.number.inj hxy
  have hpoint : Function.Injective fun o : Offset =>
      Json.object [("x", .number o.x), ("y", .number o.y)] := by
    rintro ⟨x, y⟩ ⟨x', y'⟩ hxy
    cases hxy
    rfl
  have hblur : s.blurRadius.map Json.number = t.blurRadius.map Json.number := by
    rw [← get?_blurRadius, ← get?_blurRadius, h]
  have hoffset : s.offset.map _ = t.offset.map _ :=
    s.get?_offset.symm.trans ((congrArg (Json.get? "offset") h).trans t.get?_offset)
  have halpha : s.alpha.map Json.number = t.alpha.map Json.number := by
    rw [← get?_alpha, ← get?_alpha, h]
  rcases s with ⟨blur, offset, alpha⟩
  rcases t with ⟨blur', offset', alpha'⟩
  obtain rfl := Option.map_injective hnumber hblur
  obtain rfl := Option.map_injective hpoint hoffset
  obtain rfl := Option.map_injective hnumber halpha
  rfl

end Shadow

namespace Belongs

variable {c : Category} {name name' : String}

theorem eq_colors {hex : String} (h : Belongs c name (.color hex)) : c = .colors := by
  cases h
  rfl

theorem ne_colors {word : String} (h : Belongs c name (.symbol word)) : c ≠ .colors := by
  cases h <;> exact Category.noConfusion

/-- Values of one category that are written alike are equal. Only a color and a word are both
written as texts, and no category has both. -/
theorem eq_of_toJson {v v' : TokenValue} (h : Belongs c name v) (h' : Belongs c name' v')
    (hjson : v.toJson = v'.toJson) : v = v' := by
  cases v with
  | color hex =>
    cases v' with
    | color hex' => exact congrArg TokenValue.color (Json.string.inj hjson)
    | symbol word => exact absurd h.eq_colors h'.ne_colors
    | gradient | number | integer | shadow => cases hjson
  | gradient stops =>
    cases v' with
    | gradient stops' =>
      have hstops : stops.map Json.string = stops'.map Json.string := Json.array.inj hjson
      exact congrArg TokenValue.gradient
        (List.map_injective_iff.2 (fun s t hst => Json.string.inj hst) hstops)
    | color | number | integer | symbol | shadow => cases hjson
  | number x =>
    cases v' with
    | number x' => exact congrArg TokenValue.number (Json.number.inj hjson)
    | color | gradient | integer | symbol | shadow => cases hjson
  | integer n =>
    cases v' with
    | integer n' => exact congrArg TokenValue.integer (Int.ofNat.inj (Json.integer.inj hjson))
    | color | gradient | number | symbol | shadow => cases hjson
  | symbol word =>
    cases v' with
    | color hex => exact absurd h'.eq_colors h.ne_colors
    | symbol word' => exact congrArg TokenValue.symbol (Json.string.inj hjson)
    | gradient | number | integer | shadow => cases hjson
  | shadow s =>
    cases v' with
    | shadow s' => exact congrArg TokenValue.shadow (Shadow.toJson_injective hjson)
    | color | gradient | number | integer | symbol => cases hjson

end Belongs

/-! ## Tables and models -/

-- A function that tells the members of two lists apart tells the lists apart.
theorem TokenTable.entries_eq_of_map_eq {α β : Type} {f : α → β} {es es' : List α}
    (h : ∀ e ∈ es, ∀ e' ∈ es', f e = f e' → e = e') (heq : es.map f = es'.map f) : es = es' := by
  induction es generalizing es' with
  | nil => exact (List.map_eq_nil_iff.1 heq.symm).symm
  | cons e es ih =>
    cases es' with
    | nil => cases heq
    | cons e' es' =>
      obtain ⟨hfirst, hrest⟩ := List.cons.inj heq
      rw [h e List.mem_cons_self e' List.mem_cons_self hfirst,
        ih (fun a ha a' ha' => h a (.tail _ ha) a' (.tail _ ha')) hrest]

/-- Models whose tables hold what their categories have are equal if they are written alike. -/
theorem TokenModel.eq_of_toJson {m m' : TokenModel}
    (h : ∀ c, ∀ e ∈ (m.table c).entries, Belongs c e.1 e.2)
    (h' : ∀ c, ∀ e ∈ (m'.table c).entries, Belongs c e.1 e.2) (hjson : m.toJson = m'.toJson) :
    m = m' := by
  have htable (c : Category) : m.table c = m'.table c := by
    have hmembers := (under?_toJson c).symm.trans ((congrArg (Json.under? c.name) hjson).trans
      (under?_toJson c))
    have hentries : (m.table c).entries = (m'.table c).entries := by
      refine TokenTable.entries_eq_of_map_eq (fun e he e' he' heq => ?_) (Option.some.inj hmembers)
      obtain ⟨hname, hvalue⟩ := Prod.mk.inj heq
      exact Prod.ext hname ((h c e he).eq_of_toJson (h' c e' he') hvalue)
    exact congrArg TokenTable.mk hentries
  cases m
  cases m'
  rw [TokenModel.mk.injEq]
  exact ⟨htable .colors, htable .typography, htable .spacing, htable .shadows, htable .animations,
    htable .borders⟩

-- Where a category has both, the document does not tell them apart.
example : (TokenModel.empty.insert .colors "ink" (.color "red")).toJson =
    (TokenModel.empty.insert .colors "ink" (.symbol "red")).toJson := rfl

namespace Library

/-- **The complete document of a source determines its model.** -/
theorem extract_eq_of_complete {source source' : String} {ctx ctx' : DocumentContext}
    {text : String}
    (h : completeAdapter.render (standard.extract source).build.model ctx = .ok text)
    (h' : completeAdapter.render (standard.extract source').build.model ctx' = .ok text) :
    (standard.extract source).build.model = (standard.extract source').build.model := by
  have hbelongs (source : String) (c : Category) :
      ∀ e ∈ ((standard.extract source).build.model.table c).entries, Belongs c e.1 e.2 :=
    fun e he => (wellTyped_of_mem_table he).belongs
  have htext : (standard.extract source).build.model.toJson.pretty =
      (standard.extract source').build.model.toJson.pretty :=
    Except.ok.inj (h.trans h'.symm)
  have hread := read_complete (exportable_extract source)
  rw [htext, read_complete (exportable_extract source')] at hread
  exact TokenModel.eq_of_toJson (hbelongs source) (hbelongs source') (Option.some.inj hread).symm

/-- The complete document of a model with one spacing. -/
def gapDocument : String :=
  "\x7b\n  \"colors\": \x7b\x7d,\n  \"typography\": \x7b\x7d,\n"
    ++ "  \"spacing\": \x7b\n    \"gap\": 8.0\n  \x7d,\n  \"shadows\": \x7b\x7d,\n"
    ++ "  \"animations\": \x7b\x7d,\n  \"borders\": \x7b\x7d\n\x7d\n"

/-- However a source spells a number, it is written in one way. -/
theorem extract_eq_of_complete_spellings :
    completeAdapter.render (standard.extract "double get gap => 8;").build.model
        ⟨"A", "1.0", none, "a.dart", []⟩ = .ok gapDocument ∧
      completeAdapter.render
        (standard.extract "double get gap => x;\ndouble get gap => 08.0;").build.model
        ⟨"B", "2.0", none, "b.dart", []⟩ = .ok gapDocument ∧
        (standard.extract "double get gap => 8;").build.model =
          (standard.extract "double get gap => x;\ndouble get gap => 08.0;").build.model :=
  have h : completeAdapter.render (standard.extract "double get gap => 8;").build.model
      ⟨"A", "1.0", none, "a.dart", []⟩ = .ok gapDocument := by decide +kernel
  have h' : completeAdapter.render
      (standard.extract "double get gap => x;\ndouble get gap => 08.0;").build.model
      ⟨"B", "2.0", none, "b.dart", []⟩ = .ok gapDocument := by decide +kernel
  ⟨h, h', extract_eq_of_complete h h'⟩

end Library

end DesignTokens
