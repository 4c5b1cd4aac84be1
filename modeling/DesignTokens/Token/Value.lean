import DesignTokens.Json.Basic

/-!
# Token values

A value is what a declaration of the source means: a color, a gradient, a number, a whole number
of milliseconds, a symbol, or a shadow with the parts that were given. Documents carry values
without a mark of their kind.
-/

namespace DesignTokens

/-- A displacement in two directions. -/
structure Offset where
  x : Binary64
  y : Binary64
deriving DecidableEq, Repr

/-- A shadow; a part that the source does not give is missing. -/
structure Shadow where
  blurRadius : Option Binary64
  offset : Option Offset
  alpha : Option Binary64
deriving DecidableEq, Repr

/-- The value of a token. -/
inductive TokenValue where
  /-- A color, as six or eight hex digits behind a hash sign. -/
  | color (hex : String)
  /-- The colors of a gradient in order. -/
  | gradient (stops : List String)
  | number (x : Binary64)
  /-- A whole number of milliseconds. -/
  | integer (n : Nat)
  /-- A word of the source, such as the name of a curve. -/
  | symbol (word : String)
  | shadow (s : Shadow)
deriving DecidableEq, Repr

namespace Shadow

/-- A shadow of which no part is given. -/
def bare : Shadow := ⟨none, none, none⟩

/-- Whether no part is given. -/
def isBare (s : Shadow) : Bool :=
  s.blurRadius.isNone && s.offset.isNone && s.alpha.isNone

/-- The parts that are given, in fixed order. -/
def toJson (s : Shadow) : Json :=
  .object <|
    (match s.blurRadius with
      | some b => [("blurRadius", .number b)]
      | none => [])
    ++ (match s.offset with
      | some o => [("offset", .object [("x", .number o.x), ("y", .number o.y)])]
      | none => [])
    ++ (match s.alpha with
      | some a => [("alpha", .number a)]
      | none => [])

end Shadow

namespace TokenValue

/-- The hex text of a color; a gradient has none. -/
def color? : TokenValue → Option String
  | color hex => some hex
  | _ => none

/-- The number of a numeric value; milliseconds are none. -/
def number? : TokenValue → Option Binary64
  | number x => some x
  | _ => none

/-- A value as documents carry it. -/
def toJson : TokenValue → Json
  | color hex => .string hex
  | gradient stops => .strings stops
  | number x => .number x
  | integer n => .ofNat n
  | symbol word => .string word
  | shadow s => s.toJson

end TokenValue

end DesignTokens
