import DesignTokens.Extract.Build
import DesignTokens.Proofs.Token.Bindings

/-!
# The model as a fold over the hits

What a hit means is said here case by case: which names it binds to which values, and what there
is to complain about. Building then amounts to putting the complaints of all hits one after the
other, and to filling the table of each category with the bindings of its hits. No hit is lost,
and a hit whose text cannot be read loses nothing but its own value.
-/

namespace DesignTokens

namespace Hit

/-- The names that a hit binds and their values, in order. -/
def bindings (h : Hit) : List (String × TokenValue) :=
  h.effects.filterMap Effect.binding?

def warnings (h : Hit) : List BuildWarning :=
  h.effects.filterMap Effect.warning?

/-- A complaint about a text of a hit. -/
def complaint (h : Hit) (code : LogCode) (message : String) (raw : List Char) : BuildWarning :=
  ⟨code, h.category, h.name, h.line, message, String.ofList raw⟩

/-! ## What a hit means -/

/-- What becomes of a part of a composite value: it may be missing, readable or malformed, and
only in the last case there is something to complain about. -/
inductive PartMeans {α : Type} (h : Hit) (part : Pattern) (read : List Char → Option α)
    (code : LogCode) (message : String) : Option α → List BuildWarning → Prop
  | missing (hf : Detail.find? part h.body = none) : PartMeans h part read code message none []
  | readable {raw : List Char} {a : α} (hf : Detail.find? part h.body = some raw)
      (hr : read raw = some a) : PartMeans h part read code message (some a) []
  | malformed {raw : List Char} (hf : Detail.find? part h.body = some raw)
      (hr : read raw = none) :
      PartMeans h part read code message none [h.complaint code message raw]

/-- What a hit means: the bindings and the warnings that it gives. -/
inductive Means (h : Hit) : List (String × TokenValue) → List BuildWarning → Prop
  | color {hex : String} (hs : h.shape = .hex) (hr : Capture.readColor h.body = some hex) :
      Means h [(h.name, .color hex)] []
  | malformedColor (hs : h.shape = .hex) (hr : Capture.readColor h.body = none) :
      Means h []
        [h.complaint .malformedColor "Color value could not be normalized" h.body]
  | gradient {stops : List (List Char)} (hs : h.shape = .gradient)
      (hf : Detail.findAll Detail.gradientStop h.body = stops) :
      Means h [(h.name ++ "_gradient", .gradient (stops.filterMap Capture.readColor))]
        ((stops.filter fun s => Capture.readColor s = none).map
          (h.complaint .malformedColor "Gradient stop could not be normalized"))
  | number {x : Binary64} (hs : h.shape = .numeric) (hr : Capture.readNumber h.body = some x) :
      Means h [(h.name, .number x)] []
  | malformedNumber (hs : h.shape = .numeric) (hr : Capture.readNumber h.body = none) :
      Means h []
        [h.complaint .malformedNumber "Numeric value could not be parsed" h.body]
  | textStyle {size : Option Binary64} {ws : List BuildWarning} (hs : h.shape = .textStyle)
      (hsize : h.PartMeans Detail.fontSize Capture.readNumber .malformedNumber
        "fontSize could not be parsed" size ws) :
      Means h
        ((size.toList.map fun x => (h.name ++ "_fontSize", .number x))
          ++ (Detail.find? Detail.fontWeight h.body).toList.map fun w =>
            (h.name ++ "_fontWeight", .symbol (String.ofList w))) ws
  | shadow {blur alpha : Option Binary64} {offset : Option Offset} {us vs ws : List BuildWarning}
      (hs : h.shape = .shadow)
      (hblur : h.PartMeans Detail.blurRadius Capture.readNumber .malformedNumber
        "blurRadius could not be parsed" blur us)
      (hoffset : h.PartMeans Detail.offset Capture.readOffset .malformedOffset
        "Shadow offset is not an (x, y) pair" offset vs)
      (halpha : h.PartMeans Detail.alpha Capture.readNumber .malformedNumber
        "alpha could not be parsed" alpha ws) :
      Means h [(h.name, .shadow ⟨blur, offset, alpha⟩)] (us ++ vs ++ ws)
  | duration {n : Nat} (hs : h.shape = .duration)
      (hr : Capture.readMilliseconds h.body = some n) :
      Means h [(h.name ++ "_duration", .integer n)] []
  | malformedDuration (hs : h.shape = .duration)
      (hr : Capture.readMilliseconds h.body = none) :
      Means h []
        [h.complaint .malformedDuration "Duration is not a whole number of milliseconds" h.body]
  | curve (hs : h.shape = .curve) :
      Means h [(h.name ++ "_curve", .symbol (String.ofList h.body))] []

-- A part is only complained about with its own code.
theorem PartMeans.code_eq {α : Type} {h : Hit} {part : Pattern} {read : List Char → Option α}
    {code : LogCode} {message : String} {value : Option α} {ws : List BuildWarning}
    (hm : h.PartMeans part read code message value ws) {w : BuildWarning} (hw : w ∈ ws) :
    w.code = code := by
  cases hm with
  | missing | readable => cases hw
  | malformed =>
    rw [List.mem_singleton.1 hw]
    rfl

theorem PartMeans.value_eq {α : Type} {h : Hit} {part : Pattern} {read : List Char → Option α}
    {code : LogCode} {message : String} {value : Option α} {ws : List BuildWarning}
    (hm : h.PartMeans part read code message value ws) :
    value = (Detail.find? part h.body).bind read := by
  cases hm with
  | missing hf => rw [hf, Option.bind_none]
  | readable hf hr => rw [hf, Option.bind_some, hr]
  | malformed hf hr => rw [hf, Option.bind_some, hr]

/-! ## Effects are what a hit means -/

-- A hit whose effects are some warnings and then some bindings means those.
theorem means_of_effects {h : Hit} {bs : List (String × TokenValue)} {ws : List BuildWarning}
    (he : h.effects = ws.map .warn ++ bs.map fun b => .bind b.1 b.2) (hm : h.Means bs ws) :
    h.Means h.bindings h.warnings := by
  have hbindings : h.bindings = bs := by
    rw [bindings, he, List.filterMap_append, List.filterMap_map, List.filterMap_map]
    have hw : ws.filterMap (Effect.binding? ∘ Effect.warn) = [] :=
      List.filterMap_eq_nil_iff.2 fun _ _ => rfl
    rw [hw]
    exact List.filterMap_some
  have hwarnings : h.warnings = ws := by
    rw [warnings, he, List.filterMap_append, List.filterMap_map, List.filterMap_map]
    have hb : bs.filterMap (Effect.warning? ∘ fun b => Effect.bind b.1 b.2) = [] :=
      List.filterMap_eq_nil_iff.2 fun _ _ => rfl
    rw [hb, List.append_nil]
    exact List.filterMap_some
  rw [hbindings, hwarnings]
  exact hm

-- The effects about a part are its complaints, and its value is what can be read of it.
theorem partMeans {α : Type} (h : Hit) (part : Pattern) (read : List Char → Option α)
    (code : LogCode) (message : String) :
    ∃ ws, h.partWarning read (Detail.find? part h.body) code message = ws.map Effect.warn ∧
      h.PartMeans part read code message ((Detail.find? part h.body).bind read) ws := by
  cases hf : Detail.find? part h.body with
  | none => exact ⟨[], rfl, .missing hf⟩
  | some raw =>
    cases hr : read raw with
    | none =>
      refine ⟨[h.complaint code message raw], ?_, ?_⟩
      · simp only [partWarning, hr]
        rfl
      · rw [Option.bind_some, hr]
        exact .malformed hf hr
    | some a =>
      refine ⟨[], ?_, ?_⟩
      · simp only [partWarning, hr]
        rfl
      · rw [Option.bind_some, hr]
        exact .readable hf hr

theorem means_gradient {h : Hit} (hs : h.shape = .gradient) :
    h.Means h.bindings h.warnings := by
  refine means_of_effects ?_ (.gradient hs rfl)
  have hnone : (fun s => decide (Capture.readColor s = none)) =
      fun s => (Capture.readColor s).isNone := by
    funext s
    cases Capture.readColor s <;> rfl
  simp only [effects, hs, gradientEffects, hnone, List.map_map]
  rfl

-- The effects of a text style: what its size gives, and its weight if there is one.
theorem effects_textStyle {h : Hit} (hs : h.shape = .textStyle) :
    h.effects =
      ((Detail.find? Detail.fontSize h.body).toList.map fun raw =>
        h.bindOrWarn "_fontSize" ((Capture.readNumber raw).map .number)
          .malformedNumber "fontSize could not be parsed" raw)
      ++ (Detail.find? Detail.fontWeight h.body).toList.map fun w =>
        .bind (h.name ++ "_fontWeight") (.symbol (String.ofList w)) := by
  simp only [effects, hs, textStyleEffects]
  cases Detail.find? Detail.fontSize h.body <;> cases Detail.find? Detail.fontWeight h.body <;> rfl

theorem means_textStyle {h : Hit} (hs : h.shape = .textStyle) :
    h.Means h.bindings h.warnings := by
  have heffects := effects_textStyle hs
  cases hf : Detail.find? Detail.fontSize h.body with
  | none =>
    refine means_of_effects ?_ (.textStyle hs (.missing hf))
    rw [heffects, hf, Option.toList_none, Option.toList_none, List.map_nil, List.map_nil,
      List.map_nil, List.nil_append, List.nil_append, List.nil_append, List.map_map]
    rfl
  | some raw =>
    cases hr : Capture.readNumber raw with
    | none =>
      refine means_of_effects ?_ (.textStyle hs (.malformed hf hr))
      rw [heffects, hf, Option.toList_none, List.map_nil, List.nil_append, List.map_map]
      simp only [bindOrWarn, Option.toList_some, List.map_cons, List.map_nil, hr]
      rfl
    | some x =>
      refine means_of_effects ?_ (.textStyle hs (.readable hf hr))
      rw [heffects, hf, List.map_append, List.map_map, List.map_map]
      simp only [bindOrWarn, Option.toList_some, List.map_cons, List.map_nil, hr]
      rfl

theorem means_shadow {h : Hit} (hs : h.shape = .shadow) : h.Means h.bindings h.warnings := by
  rcases h.partMeans Detail.blurRadius Capture.readNumber .malformedNumber
    "blurRadius could not be parsed"
    with ⟨us, hus, hblur⟩
  rcases h.partMeans Detail.offset Capture.readOffset .malformedOffset
    "Shadow offset is not an (x, y) pair"
    with ⟨vs, hvs, hoffset⟩
  rcases h.partMeans Detail.alpha Capture.readNumber .malformedNumber
    "alpha could not be parsed"
    with ⟨ws, hws, halpha⟩
  refine means_of_effects ?_ (.shadow hs hblur hoffset halpha)
  simp only [effects, hs, shadowEffects, hus, hvs, hws, List.map_append]
  rfl

/-- **The bindings and the warnings of a hit are those that it means.** -/
theorem means (h : Hit) : h.Means h.bindings h.warnings := by
  cases hs : h.shape with
  | hex =>
    cases hr : Capture.readColor h.body with
    | none =>
      refine means_of_effects ?_ (.malformedColor hs hr)
      simp only [effects, hs, bindOrWarn, hr]
      rfl
    | some hex =>
      refine means_of_effects ?_ (.color hs hr)
      simp only [effects, hs, bindOrWarn, hr, Option.map_some, String.append_empty]
      rfl
  | gradient => exact means_gradient hs
  | numeric =>
    cases hr : Capture.readNumber h.body with
    | none =>
      refine means_of_effects ?_ (.malformedNumber hs hr)
      simp only [effects, hs, bindOrWarn, hr]
      rfl
    | some x =>
      refine means_of_effects ?_ (.number hs hr)
      simp only [effects, hs, bindOrWarn, hr, Option.map_some, String.append_empty]
      rfl
  | textStyle => exact means_textStyle hs
  | shadow => exact means_shadow hs
  | duration =>
    cases hr : Capture.readMilliseconds h.body with
    | none =>
      refine means_of_effects ?_ (.malformedDuration hs hr)
      simp only [effects, hs, bindOrWarn, hr]
      rfl
    | some n =>
      refine means_of_effects ?_ (.duration hs hr)
      simp only [effects, hs, bindOrWarn, hr, Option.map_some]
      rfl
  | curve =>
    refine means_of_effects ?_ (.curve hs)
    simp only [effects, hs]
    rfl

end Hit

/-! ## The build of many hits -/

/-- The bindings that hits make in a category, in order. -/
def bindingsIn (c : Category) (hits : List Hit) : List (String × TokenValue) :=
  (hits.filter fun h => h.category = c).flatMap Hit.bindings

theorem bindingsIn_cons (c : Category) (h : Hit) (hs : List Hit) :
    bindingsIn c (h :: hs) = (if h.category = c then h.bindings else []) ++ bindingsIn c hs := by
  rw [bindingsIn, List.filter_cons]
  by_cases hc : h.category = c
  · rw [if_pos (decide_eq_true hc), if_pos hc, List.flatMap_cons]
    rfl
  · rw [if_neg (by simpa using hc), if_neg hc]
    rfl

theorem bindingsIn_append (c : Category) (hs ks : List Hit) :
    bindingsIn c (hs ++ ks) = bindingsIn c hs ++ bindingsIn c ks := by
  rw [bindingsIn, List.filter_append, List.flatMap_append]
  rfl

namespace Build

theorem warnings_ofHits (hits : List Hit) :
    (ofHits hits).warnings = hits.flatMap Hit.warnings := by
  rw [warnings, ofHits, List.filterMap_flatMap]
  congr 1
  funext h
  rw [List.filterMap_map]
  rfl

-- One more effect binds its name in the category of its hit, or leaves the tables as they are.
theorem table_apply (m : TokenModel) (h : Hit) (e : Effect) (c : Category) :
    (apply m (h, e)).table c =
      if h.category = c then e.binding?.toList.foldl (fun t b => t.insert b.1 b.2) (m.table c)
      else m.table c := by
  cases e with
  | warn w =>
    change m.table c = _
    split <;> rfl
  | bind name value =>
    change (m.insert h.category name value).table c = _
    rw [TokenModel.table_insert]
    by_cases hc : h.category = c
    · subst hc
      rw [if_pos rfl, if_pos rfl]
      rfl
    · rw [if_neg (Ne.symm hc), if_neg hc]

theorem table_foldl_effects (m : TokenModel) (h : Hit) (es : List Effect) (c : Category) :
    ((es.map fun e => (h, e)).foldl apply m).table c =
      if h.category = c then
        (es.filterMap Effect.binding?).foldl (fun t b => t.insert b.1 b.2) (m.table c)
      else m.table c := by
  induction es generalizing m with
  | nil =>
    change m.table c = _
    split <;> rfl
  | cons e es ih =>
    rw [List.map_cons, List.foldl_cons, ih, table_apply]
    split
    · rw [List.filterMap_cons]
      cases e <;> rfl
    · rfl

/-- **The table of a category is what the bindings of its hits amount to.** -/
theorem table_model_ofHits (hits : List Hit) (c : Category) :
    (ofHits hits).model.table c = .ofBindings (bindingsIn c hits) := by
  have hfold (m : TokenModel) : ((ofHits hits).effects.foldl apply m).table c =
      (bindingsIn c hits).foldl (fun t b => t.insert b.1 b.2) (m.table c) := by
    induction hits generalizing m with
    | nil => rfl
    | cons h hits ih =>
      have hrest := ih (((h.effects.map fun e => (h, e)).foldl apply) m)
      rw [ofHits, List.flatMap_cons, List.foldl_append]
      rw [ofHits] at hrest
      rw [hrest, table_foldl_effects, bindingsIn, bindingsIn, List.filter_cons]
      by_cases hc : h.category = c
      · rw [if_pos hc, if_pos (by rw [decide_eq_true hc]), List.flatMap_cons, List.foldl_append]
        rfl
      · rw [if_neg hc, if_neg (by rw [decide_eq_true_eq]; exact hc)]
  rw [model, hfold]
  cases c <;> rfl

/-- **Building loses no hit.** Each hit gives the bindings and warnings that it means; the warnings
stand in the order of the hits, the names of a category in the order of their first binding, each
once, and behind each name is the value that it was bound to last. -/
theorem ofHits_eq_fold (hits : List Hit) :
    (∀ h ∈ hits, h.Means h.bindings h.warnings) ∧
      (ofHits hits).warnings = hits.flatMap Hit.warnings ∧
      ∀ c, ((ofHits hits).model.table c).names =
          ((bindingsIn c hits).map (·.1)).eraseDups ∧
        ∀ name, (ofHits hits).model.get? c name =
          TokenTable.lastBinding name (bindingsIn c hits) := by
  refine ⟨fun h _ => h.means, warnings_ofHits hits, fun c => ⟨?_, fun name => ?_⟩⟩
  · rw [table_model_ofHits, TokenTable.names_ofBindings]
  · rw [TokenModel.get?, table_model_ofHits, TokenTable.get?_ofBindings]

end Build

end DesignTokens
