import DesignTokens.Token.Category
import DesignTokens.Token.Table
import DesignTokens.Token.Value

/-!
# The token model

One table for each category. The model is what a source declares; every document is a projection
of it.
-/

namespace DesignTokens

/-- The tokens of a source by category. -/
structure TokenModel where
  colors : TokenTable TokenValue
  typography : TokenTable TokenValue
  spacing : TokenTable TokenValue
  shadows : TokenTable TokenValue
  animations : TokenTable TokenValue
  borders : TokenTable TokenValue
deriving DecidableEq, Repr

namespace TokenModel

def empty : TokenModel :=
  ⟨.empty, .empty, .empty, .empty, .empty, .empty⟩

/-- The table of a category. -/
def table (m : TokenModel) : Category → TokenTable TokenValue
  | .colors => m.colors
  | .typography => m.typography
  | .spacing => m.spacing
  | .shadows => m.shadows
  | .animations => m.animations
  | .borders => m.borders

/-- Binds a name in the table of a category. -/
def insert (m : TokenModel) (c : Category) (name : String) (value : TokenValue) : TokenModel :=
  match c with
  | .colors => { m with colors := m.colors.insert name value }
  | .typography => { m with typography := m.typography.insert name value }
  | .spacing => { m with spacing := m.spacing.insert name value }
  | .shadows => { m with shadows := m.shadows.insert name value }
  | .animations => { m with animations := m.animations.insert name value }
  | .borders => { m with borders := m.borders.insert name value }

def get? (m : TokenModel) (c : Category) (name : String) : Option TokenValue :=
  (m.table c).get? name

def isEmpty (m : TokenModel) : Bool :=
  Category.all.all fun c => (m.table c).isEmpty

/-- How many tokens each category has, in canonical order. -/
def counts (m : TokenModel) : List (Category × Nat) :=
  Category.all.map fun c => (c, (m.table c).size)

def total (m : TokenModel) : Nat :=
  countTotal m.counts

/-- The model as documents carry it: the categories under their keys, empty ones too. -/
def toJson (m : TokenModel) : Json :=
  .object <| Category.all.map fun c =>
    (c.name, .object ((m.table c).entries.map fun (name, value) => (name, value.toJson)))

/-! ## What a binding does -/

theorem table_insert (m : TokenModel) (c d : Category) (name : String) (value : TokenValue) :
    (m.insert c name value).table d = if d = c then (m.table c).insert name value else m.table d := by
  cases c <;> cases d <;> rfl

theorem get?_insert (m : TokenModel) (c d : Category) (name other : String) (value : TokenValue) :
    (m.insert c name value).get? d other =
      if d = c ∧ other = name then some value else m.get? d other := by
  simp only [get?, table_insert]
  by_cases hd : d = c
  · subst hd
    simp [TokenTable.get?_insert]
  · simp [hd]

end TokenModel

end DesignTokens
