import DesignTokens.Document.Basic
import DesignTokens.Document.Projection
import DesignTokens.Json.Printer

/-!
# The JSON documents

Four documents are JSON: the complete model, the flat maps of colors and spacings, the same maps in
an envelope with name and version, and a tree in which each value carries its type.
-/

namespace DesignTokens

/-! ## The complete model -/

/-- All six categories with all values. -/
def completeAdapter : Adapter where
  id := "json"
  fileName := "design-tokens.json"
  description := "Complete token model as JSON"
  render m _ := .ok m.toJson.pretty

/-! ## Flat maps -/

/-- The scalar colors and the spacings, each under its name. -/
def flatMembers (m : TokenModel) : List (String × Json) :=
  [("colors", .object (m.scalarColors.map fun (name, hex) => (name, .string hex))),
   ("spacing", .object (m.spacingNumbers.map fun (name, x) => (name, .number x)))]

/-- The flat maps without an envelope. -/
def flatAdapter : Adapter where
  id := "flat"
  fileName := "sketch-tokens.json"
  description := "Flat color and spacing maps"
  render m _ := .ok (Json.object (flatMembers m)).pretty

/-! ## Envelopes -/

/-- Version, name and, if the run has one, the stamp. -/
def envelopeMembers (ctx : DocumentContext) : List (String × Json) :=
  [("version", .string ctx.schemaVersion), ("name", .string ctx.documentName)]
    ++ (match ctx.generatedAt with
      | some t => [("generatedAt", .string t.text)]
      | none => [])

/-- The flat maps behind an envelope. -/
def vendorAdapter : Adapter where
  id := "vendor"
  fileName := "adobe-xd-tokens.json"
  description := "Color and spacing maps with product envelope"
  render m ctx := .ok (Json.object (envelopeMembers ctx ++ flatMembers m)).pretty

/-! ## The typed tree -/

def typedValue (kind value : String) : Json :=
  .object [("value", .string value), ("type", .string kind)]

/-- Colors, spacings and border metrics with their types. -/
def typedTree (m : TokenModel) : Json :=
  .object
    [("color", .object (m.scalarColors.map fun (name, hex) => (name, typedValue "color" hex))),
     ("spacing", .object
       (m.spacingNumbers.map fun (name, x) => (name, typedValue "dimension" (lengthText x)))),
     ("borderRadius", .object
       (m.borderNumbers.map fun (name, x) => (name, typedValue "borderRadius" (lengthText x))))]

/-- The typed tree behind an envelope. -/
def designToolAdapter : Adapter where
  id := "design-tool"
  fileName := "figma-tokens.json"
  description := "Token tree for design-tool import"
  render m ctx := .ok (Json.object (envelopeMembers ctx ++ [("tokens", typedTree m)])).pretty

end DesignTokens
