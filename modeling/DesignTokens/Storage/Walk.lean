import DesignTokens.Storage.Host
import DesignTokens.Storage.Path
import DesignTokens.Storage.Tree

/-!
# Ways through a tree of files

A path leads from name to name, up through dots, and on through links, of which only so many may
lie on the way. A slash at the end asks for a directory. A file that is to be made must have a name
of its own at the end, so a slash or dots there are refused before anything is looked up.
-/

namespace DesignTokens

/-! ## Steps -/

/-- The greatest number of bytes of a name. -/
def Path.nameBytes : Nat := 255

/-- The greatest number of bytes of a path. -/
def Path.pathBytes : Nat := 4095

/-- The step that a slash at the end of a path stands for. -/
def Path.endStep : String := ""

def Path.names (path : String) : List String :=
  (Path.pieces path).filter (· ≠ "")

def Path.steps (path : String) : List String :=
  Path.names path ++ if path.toList.getLast? = some '/' then [Path.endStep] else []

/-- Whether a step stays where it is. -/
def Path.isIdle (step : String) : Bool :=
  step = Path.endStep || step = "."

/-! ## Directories on the way -/

/-- A directory that a path has come to. Above the directory where all paths start there are other
directories, of which nothing is known. -/
structure Spot where
  /-- The names that lead to it, the last one first. -/
  names : List String
  /-- The directories that it lies in, the innermost first. -/
  above : List Listing
  here : Listing

namespace Spot

/-- The directory where all paths start. -/
def start (es : Listing) : Spot := ⟨[], [], es⟩

def down (s : Spot) (name : String) (inner : Listing) : Spot :=
  ⟨name :: s.names, s.here :: s.above, inner⟩

/-- The directory that this one lies in. -/
def up (s : Spot) : Spot :=
  match s.names, s.above with
  | _ :: names, es :: above => ⟨names, above, es⟩
  | names, _ => ⟨".." :: names, [], []⟩

/-- The root, which is as unknown as anything above the start. -/
def root : Spot := ⟨[".."], [], []⟩

def placeOf (s : Spot) (name : String) : List String :=
  (name :: s.names).reverse

end Spot

/-- Where a path leads. -/
inductive Arrival where
  | directory (s : Spot)
  | file (s : Spot) (name : String) (c : FileContents)
  /-- There is nothing, but there is a directory that could hold it. -/
  | vacant (s : Spot) (name : String)

/-! ## Walking -/

/-- Where steps from a directory lead, given where steps behind a link lead. -/
def walkWith (making : Bool) (follow : Spot → List String → Except HostError Arrival) :
    Spot → List String → Except HostError Arrival
  | s, [] => .ok (.directory s)
  | s, step :: rest =>
    if making ∧ (rest = [Path.endStep] ∨ rest = [] ∧ (step = "." ∨ step = "..")) then
      .error .isDirectory
    else if Path.isIdle step then walkWith making follow s rest
    else if step = ".." then walkWith making follow s.up rest
    else if Path.nameBytes < step.utf8ByteSize then .error .nameTooLong
    else match s.here.get? step with
      | none => if rest = [] then .ok (.vacant s step) else .error .notFound
      | some (.directory inner) => walkWith making follow (s.down step inner) rest
      | some (.file c) => if rest = [] then .ok (.file s step c) else .error .notDirectory
      | some (.link target) =>
        follow (if Path.isAbsolute target then .root else s) (Path.steps target ++ rest)

/-- Where steps from a directory lead, through so many links at most. -/
def walk (making : Bool) : Nat → Spot → List String → Except HostError Arrival
  | 0 => walkWith making fun _ _ => .error .tooManyLinks
  | links + 1 => walkWith making (walk making links)

/-- The greatest number of links on a way. -/
def linkLimit : Nat := 40

end DesignTokens
