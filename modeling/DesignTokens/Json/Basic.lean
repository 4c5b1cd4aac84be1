import DesignTokens.Number.Binary64

/-!
# JSON values

Members of an object keep their order. Whole numbers stand apart from doubles, so a count of
milliseconds is exact however large it is, and `8` is not `8.0`.
-/

namespace DesignTokens

/-- A JSON value. -/
inductive Json where
  | null
  | bool (b : Bool)
  | integer (n : Int)
  | number (x : Binary64)
  | string (s : String)
  | array (items : List Json)
  | object (members : List (String × Json))
deriving Inhabited

namespace Json

/-- A natural number as a value. -/
def ofNat (n : Nat) : Json := integer n

def strings (texts : List String) : Json := array (texts.map string)

/-- The first value that an object gives to a key. -/
def get? (key : String) : Json → Option Json
  | object members => (members.find? (·.1 == key)).map (·.2)
  | _ => none

/-- The members of an object; other values have none. -/
def members : Json → List (String × Json)
  | object members => members
  | _ => []

/-- The items of an array; other values have none. -/
def items : Json → List Json
  | array items => items
  | _ => []

end Json

end DesignTokens
