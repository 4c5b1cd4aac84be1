import DesignTokens.Extract.Capture
import DesignTokens.Extract.Hit
import DesignTokens.Rule.Standard
import DesignTokens.Token.Model

/-!
# Building the model

Every hit has its own effects, in order: bindings of names and warnings about text that could not
be read. The model is what the bindings of all hits amount to, one after the other. A text that
cannot be read never stops the building; it only loses what it would have bound.
-/

namespace DesignTokens

/-- A text of a hit that could not be read. -/
structure BuildWarning where
  code : LogCode
  category : Category
  name : String
  line : Nat
  message : String
  /-- The text as captured. -/
  raw : String
deriving DecidableEq, Repr

namespace BuildWarning

/-- The line that shows a warning. -/
def text (w : BuildWarning) : String :=
  "warning[" ++ w.code.text ++ "]: " ++ w.message ++ " (" ++ w.category.name ++ "." ++ w.name
    ++ " at line " ++ toString w.line ++ ": '" ++ w.raw ++ "')"

/-- What there is to say about a warning. -/
def notice (w : BuildWarning) : Notice :=
  .warning w.code w.message w.line
    [("category", w.category.name), ("token", w.name), ("value", w.raw)]

end BuildWarning

/-- What a hit does to the model. -/
inductive Effect where
  | bind (name : String) (value : TokenValue)
  | warn (w : BuildWarning)
deriving DecidableEq, Repr

namespace Effect

def binding? : Effect → Option (String × TokenValue)
  | bind name value => some (name, value)
  | warn _ => none

def warning? : Effect → Option BuildWarning
  | bind _ _ => none
  | warn w => some w

end Effect

namespace Hit

/-- The text that a value is read from. -/
def body (h : Hit) : List Char :=
  (h.captures.head?.getD "").toList

/-- A warning about a text of a hit. -/
def warning (h : Hit) (code : LogCode) (message : String) (raw : List Char) : Effect :=
  .warn ⟨code, h.category, h.name, h.line, message, String.ofList raw⟩

/-- A binding if there is a value, and a warning about the text otherwise. -/
def bindOrWarn (h : Hit) (suffix : String) (value : Option TokenValue)
    (code : LogCode) (message : String) (raw : List Char) : Effect :=
  match value with
  | some v => .bind (h.name ++ suffix) v
  | none => h.warning code message raw

/-- A warning if a part of a value is there and cannot be read. -/
def partWarning {α : Type} (h : Hit) (read : List Char → Option α) (part : Option (List Char))
    (code : LogCode) (message : String) : List Effect :=
  match part with
  | some raw => if (read raw).isSome then [] else [h.warning code message raw]
  | none => []

/-- The effects of a gradient: a warning for each color that cannot be read, and the others. -/
def gradientEffects (h : Hit) : List Effect :=
  let stops := Detail.findAll Detail.gradientStop h.body
  (stops.filter fun s => (Capture.readColor s).isNone).map
      (h.warning .malformedColor "Gradient stop could not be normalized")
    ++ [.bind (h.name ++ "_gradient") (.gradient (stops.filterMap Capture.readColor))]

/-- The effects of a text style: its size and its weight, if they are there. -/
def textStyleEffects (h : Hit) : List Effect :=
  (match Detail.find? Detail.fontSize h.body with
    | some raw =>
      [h.bindOrWarn "_fontSize" ((Capture.readNumber raw).map .number)
        .malformedNumber "fontSize could not be parsed" raw]
    | none => [])
  ++ (match Detail.find? Detail.fontWeight h.body with
    | some raw => [.bind (h.name ++ "_fontWeight") (.symbol (String.ofList raw))]
    | none => [])

/-- The effects of a shadow: a warning for each part that cannot be read, and a binding in any case.
A shadow of which nothing is recognized still binds its name. -/
def shadowEffects (h : Hit) : List Effect :=
  let blur := Detail.find? Detail.blurRadius h.body
  let offset := Detail.find? Detail.offset h.body
  let alpha := Detail.find? Detail.alpha h.body
  h.partWarning Capture.readNumber blur .malformedNumber "blurRadius could not be parsed"
    ++ h.partWarning Capture.readOffset offset .malformedOffset
        "Shadow offset is not an (x, y) pair"
    ++ h.partWarning Capture.readNumber alpha .malformedNumber "alpha could not be parsed"
    ++ [.bind h.name (.shadow
        ⟨blur.bind Capture.readNumber, offset.bind Capture.readOffset,
          alpha.bind Capture.readNumber⟩)]

/-- The effects of a hit, in order. -/
def effects (h : Hit) : List Effect :=
  match h.shape with
  | .hex =>
    [h.bindOrWarn "" ((Capture.readColor h.body).map .color)
      .malformedColor "Color value could not be normalized" h.body]
  | .gradient => h.gradientEffects
  | .numeric =>
    [h.bindOrWarn "" ((Capture.readNumber h.body).map .number)
      .malformedNumber "Numeric value could not be parsed" h.body]
  | .textStyle => h.textStyleEffects
  | .shadow => h.shadowEffects
  | .duration =>
    [h.bindOrWarn "_duration" ((Capture.readMilliseconds h.body).map .integer)
      .malformedDuration "Duration is not a whole number of milliseconds" h.body]
  | .curve => [.bind (h.name ++ "_curve") (.symbol (String.ofList h.body))]

end Hit

/-! ## From effects to the model -/

/-- The effects of all hits in order, each with its hit. -/
structure Build where
  effects : List (Hit × Effect)

namespace Build

/-- The effects of hits in order. -/
def ofHits (hits : List Hit) : Build :=
  ⟨hits.flatMap fun h => h.effects.map fun e => (h, e)⟩

/-- The model after one more effect. -/
def apply (m : TokenModel) (step : Hit × Effect) : TokenModel :=
  match step.2 with
  | .bind name value => m.insert step.1.category name value
  | .warn _ => m

/-- The model that the effects amount to. -/
def model (b : Build) : TokenModel :=
  b.effects.foldl apply .empty

def warnings (b : Build) : List BuildWarning :=
  b.effects.filterMap fun step => step.2.warning?

/-- What there is to say about effects on a model: warnings, and names that are bound again. -/
def noticesFrom : TokenModel → List (Hit × Effect) → List Notice
  | _, [] => []
  | m, (h, .warn w) :: rest => w.notice :: noticesFrom (apply m (h, .warn w)) rest
  | m, (h, .bind name value) :: rest =>
    if (m.table h.category).contains name then
      .debug "Token re-bound; last write wins"
          [("category", h.category.name), ("name", h.name), ("rule", h.rule)]
        :: noticesFrom (apply m (h, .bind name value)) rest
    else noticesFrom (apply m (h, .bind name value)) rest

/-- What there is to say about a build: each effect in order, then the counts. -/
def notices (b : Build) : List Notice :=
  noticesFrom .empty b.effects
    ++ [.success .modelBuilt "Token model built"
      [("tokens", toString b.model.total), ("warnings", toString b.warnings.length)]]

end Build

end DesignTokens
