import DesignTokens.Document.Basic
import DesignTokens.Document.Projection

/-!
# The stylesheet

Custom properties on the root element: the scalar colors, the spacings and the font sizes of text
styles. A model without any of them still gives a rule.
-/

namespace DesignTokens.Stylesheet

/-- A text without an ending, if it has that ending. -/
def dropEnding? (ending s : String) : Option String :=
  if ending.toList.isSuffixOf s.toList then
    some (String.ofList (s.toList.take (s.toList.length - ending.toList.length)))
  else none

/-- The font sizes of text styles, under the names of the styles and in table order. -/
def fontSizes (m : TokenModel) : List (String × Binary64) :=
  m.typography.entries.filterMap fun (name, value) => do
    return (← dropEnding? "_fontSize" name, ← value.number?)

/-- A custom property and its value. -/
structure Declaration where
  property : String
  value : String
deriving DecidableEq, Repr

def Declaration.line (d : Declaration) : String :=
  "  --" ++ d.property ++ ": " ++ d.value ++ ";\n"

/-- The declarations of a model: colors, then spacings, then font sizes. -/
def declarations (m : TokenModel) : List Declaration :=
  m.scalarColors.map (fun (name, hex) => ⟨"color-" ++ name, hex⟩)
    ++ m.spacingNumbers.map (fun (name, x) => ⟨"spacing-" ++ name, lengthText x⟩)
    ++ (fontSizes m).map (fun (name, x) => ⟨"font-size-" ++ name, lengthText x⟩)

def rule (ds : List Declaration) : String :=
  ":root \x7b\n" ++ String.join (ds.map Declaration.line) ++ "\x7d\n"

def adapter : Adapter where
  id := "css"
  fileName := "design-tokens.css"
  description := "CSS custom properties for web development"
  render m _ := .ok (rule (declarations m))

end DesignTokens.Stylesheet
