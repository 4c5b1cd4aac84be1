/-!
# Token categories

The six categories of design tokens, in the order in which they are scanned and written.
-/

namespace DesignTokens

/-- What a token is about. -/
inductive Category where
  | colors
  | typography
  | spacing
  | shadows
  | animations
  | borders
deriving DecidableEq, Repr

namespace Category

/-- The categories in canonical order. -/
def all : List Category :=
  [colors, typography, spacing, shadows, animations, borders]

/-- The key of a category in documents and messages. -/
def name : Category → String
  | colors => "colors"
  | typography => "typography"
  | spacing => "spacing"
  | shadows => "shadows"
  | animations => "animations"
  | borders => "borders"

/-- The heading of a category in tables for readers. -/
def title : Category → String
  | colors => "Colors"
  | typography => "Typography"
  | spacing => "Spacing"
  | shadows => "Shadows"
  | animations => "Animations"
  | borders => "Borders"

def ofName? (s : String) : Option Category :=
  all.find? fun c => c.name == s

theorem mem_all (c : Category) : c ∈ all := by
  cases c <;> decide

theorem nodup_all : all.Nodup := by
  decide

theorem ofName?_name (c : Category) : ofName? c.name = some c := by
  cases c <;> decide

end Category

def countTotal : List (Category × Nat) → Nat
  | [] => 0
  | (_, n) :: rest => n + countTotal rest

end DesignTokens
