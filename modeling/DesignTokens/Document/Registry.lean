import DesignTokens.Document.Maps
import DesignTokens.Document.Overview
import DesignTokens.Document.Stylesheet

/-!
# The registry of adapters

A registry holds adapters in the order of their registration. An adapter whose id or whose file
name is taken is refused, and the registry stays as it was.
-/

namespace DesignTokens

/-- Adapters in the order of their registration. -/
structure Registry where
  adapters : List Adapter

namespace Registry

/-- A registry without adapters. -/
def empty : Registry := ⟨[]⟩

/-- Why an adapter would be refused. An id that is taken comes before a file name that is. -/
def refusal? (r : Registry) (a : Adapter) : Option ExportError :=
  if r.adapters.any fun b => b.id = a.id then some (.duplicateAdapter a.id)
  else match r.adapters.find? fun b => b.fileName = a.fileName with
    | some existing => some (.duplicateFileName a.id a.fileName existing.id)
    | none => none

/-- Registers an adapter behind the others. -/
def register (r : Registry) (a : Adapter) : Except ExportError Registry :=
  match r.refusal? a with
  | some e => .error e
  | none => .ok ⟨r.adapters ++ [a]⟩

/-- Registers adapters up to the first one that is refused. -/
def registerAll (r : Registry) : List Adapter → Registry × Option ExportError
  | [] => (r, none)
  | a :: rest =>
    match r.register a with
    | .ok r => r.registerAll rest
    | .error e => (r, some e)

/-- The standard adapters; the overview, if it is wanted, comes last. -/
def standardAdapters (withOverview : Bool) : List Adapter :=
  [completeAdapter, Stylesheet.adapter, designToolAdapter, flatAdapter, vendorAdapter]
    ++ (if withOverview then [Overview.adapter] else [])

def standard (withOverview : Bool) : Registry :=
  ⟨standardAdapters withOverview⟩

/-- How the overview lists the documents. -/
def manifest (r : Registry) : List ManifestEntry :=
  r.adapters.map Adapter.manifestEntry

def ids (r : Registry) : List String :=
  r.adapters.map (·.id)

/-- What there is to say about the registrations. -/
def notices (r : Registry) : List Notice :=
  r.adapters.map Adapter.notice

/-- None of the standard adapters is refused. -/
theorem registerAll_standard (withOverview : Bool) :
    empty.registerAll (standardAdapters withOverview) = (standard withOverview, none) := by
  cases withOverview <;> rfl

end Registry

end DesignTokens
