/-!
# Paths

A path is a text. Two paths name the same place in a listing if their parts are equal: repeated
slashes, a slash at the end and dots between other parts do not count.
-/

namespace DesignTokens

/-- A part of a path. The order of the kinds is the order in which parts are listed. -/
inductive PathPart where
  | root
  | here
  | parent
  | name (s : String)
deriving DecidableEq, Repr

namespace PathPart

/-- The place of a kind in the order. -/
def kind : PathPart → Nat
  | root => 0
  | here => 1
  | parent => 2
  | name _ => 3

/-- Whether one part is listed before another. -/
def before : PathPart → PathPart → Bool
  | name a, name b => a < b
  | a, b => a.kind < b.kind

end PathPart

namespace Path

/-- The texts between the slashes. -/
def pieces (path : String) : List String :=
  (path.toList.splitOn '/').map String.ofList

/-- Whether a path starts at the root. -/
def isAbsolute (path : String) : Bool :=
  path.toList.head? = some '/'

/-- The part that a text between slashes stands for. -/
def part? (s : String) : Option PathPart :=
  if s = "" ∨ s = "." then none
  else if s = ".." then some .parent
  else some (.name s)

/-- The parts of a path. A dot counts only at the start of a relative path. -/
def parts (path : String) : List PathPart :=
  let named := (pieces path).filterMap part?
  if isAbsolute path then .root :: named
  else match pieces path with
    | "." :: _ => .here :: named
    | _ => named

/-- Whether two paths name the same place in a listing. -/
def same (a b : String) : Bool :=
  a == b || parts a == parts b

theorem same_iff (a b : String) : same a b = true ↔ parts a = parts b := by
  simp only [same, Bool.or_eq_true, beq_iff_eq, or_iff_right_iff_imp]
  exact congrArg parts

/-- Whether one list of parts is listed before another. -/
def partsBefore : List PathPart → List PathPart → Bool
  | _, [] => false
  | [], _ :: _ => true
  | a :: as, b :: bs => if a = b then partsBefore as bs else a.before b

/-- A path below a directory. An absolute path replaces the directory. -/
def join (dir path : String) : String :=
  if isAbsolute path then path
  else if dir.isEmpty ∨ dir.toList.getLast? = some '/' then dir ++ path
  else dir ++ "/" ++ path

end Path

end DesignTokens
