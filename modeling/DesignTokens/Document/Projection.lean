import DesignTokens.Number.Layout
import DesignTokens.Token.Model

/-!
# Projections of the model

The parts of a model that more than one document shows: the colors that are no gradients, the
numbers of spacings and borders, and lengths with their unit.
-/

namespace DesignTokens

/-- A number as a length in a stylesheet. -/
def lengthText (x : Binary64) : String :=
  NumberStyle.plain.text x ++ "px"

namespace TokenModel

/-- The colors that are no gradients, in table order. -/
def scalarColors (m : TokenModel) : List (String × String) :=
  m.colors.entries.filterMap fun (name, value) => value.color?.map (name, ·)

def numbersOf (t : TokenTable TokenValue) : List (String × Binary64) :=
  t.entries.filterMap fun (name, value) => value.number?.map (name, ·)

/-- The spacings, in table order. -/
def spacingNumbers (m : TokenModel) : List (String × Binary64) :=
  numbersOf m.spacing

/-- The border metrics, in table order. -/
def borderNumbers (m : TokenModel) : List (String × Binary64) :=
  numbersOf m.borders

end TokenModel

end DesignTokens
