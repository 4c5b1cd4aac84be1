/-!
# TOML values and tables

A document is a table. Tables come about in different ways, and the way decides what may be added
to them later: a table with a header of its own takes no second header, a table that only lies on
the way to another may get one, and a table made by dotted keys may only grow by dotted keys. A
value never grows.
-/

namespace DesignTokens.Toml

/-- How a table came about. -/
inductive Origin where
  /-- By a header of its own, or as the whole document. -/
  | header
  /-- On the way to a table with a header. -/
  | passed
  /-- By dotted keys. -/
  | dotted
deriving DecidableEq, Repr

/-- What a key stands for. -/
inductive Item where
  | string (s : String)
  | bool (b : Bool)
  | number
  | time
  | array (items : List Item)
  /-- A table in braces. -/
  | inline (entries : List (String × Item))
  | table (origin : Origin) (entries : List (String × Item))
  /-- Tables that share a double header, the latest first. -/
  | tables (latestFirst : List (List (String × Item)))

abbrev Entries := List (String × Item)

/-- What a key stands for in a table. -/
def Entries.get? (es : Entries) (key : String) : Option Item :=
  (es.find? fun e => e.1 = key).map (·.2)

/-- Gives a key a new meaning, in its place or at the end. -/
def Entries.set (key : String) (item : Item) : Entries → Entries
  | [] => [(key, item)]
  | (k, v) :: rest => if k = key then (k, item) :: rest else (k, v) :: Entries.set key item rest

/-- Changes the table at the end of a path. Tables that are missing on the way are made, with the
given origin; dotted keys do not lead through a table with a header of its own. What a table at the
end of the path is may be seen by the change. -/
def descend (made : Origin) (change : Origin → Entries → Option Entries) :
    List String → Origin → Entries → Option Entries
  | [], origin, es => change origin es
  | key :: path, _, es =>
    match es.get? key with
    | none => do
      return es.set key (.table made (← descend made change path made []))
    | some (.table origin inner) =>
      if made = .dotted ∧ origin = .header then none
      else do return es.set key (.table origin (← descend made change path origin inner))
    | some (.tables []) => none
    | some (.tables (latest :: before)) => do
      return es.set key (.tables ((← descend made change path .header latest) :: before))
    | some _ => none

/-- Adds an entry that a dotted key leads to: the last part must be new, and the table before it
must have come about by dotted keys if there are parts before it. -/
def addEntry (path : List String) (key : String) (item : Item) (es : Entries) : Option Entries :=
  descend .dotted
    (fun origin inner =>
      if decide (origin = .dotted) = path.isEmpty then none
      else if (inner.get? key).isSome then none
      else some (inner.set key item))
    path .header es

/-- Opens the table of a header: it is new, or has only been passed so far. -/
def openTable (path : List String) (key : String) (es : Entries) : Option Entries :=
  descend .passed
    (fun _ inner =>
      match inner.get? key with
      | none => some (inner.set key (.table .header []))
      | some (.table .passed old) => some (inner.set key (.table .header old))
      | some _ => none)
    path .header es

/-- Opens one more of the tables that share a double header. -/
def openTables (path : List String) (key : String) (es : Entries) : Option Entries :=
  descend .passed
    (fun _ inner =>
      match inner.get? key with
      | none => some (inner.set key (.tables [[]]))
      | some (.tables before) => some (inner.set key (.tables ([] :: before)))
      | some _ => none)
    path .header es

/-- Adds an entry below the table of the last header. -/
def addBelow (header path : List String) (key : String) (item : Item) (es : Entries) :
    Option Entries :=
  descend .passed (fun _ inner => addEntry path key item inner) header .header es

end DesignTokens.Toml
