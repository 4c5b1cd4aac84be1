import DesignTokens.Log.Notice
import DesignTokens.Time.Instant
import DesignTokens.Token.Model

/-!
# Documents and adapters

An adapter turns a model into the text of one document. What it can use beside the model is the
context that all documents of a run share.
-/

namespace DesignTokens

/-! ## Errors -/

/-- Why a document could not be produced or an adapter not be registered. -/
inductive ExportError where
  | serialization (adapter message : String)
  | write (adapter path message : String)
  | outputDirectory (path message : String)
  | duplicateAdapter (id : String)
  | duplicateFileName (id fileName existing : String)
deriving DecidableEq, Repr

namespace ExportError

def code : ExportError → LogCode
  | serialization _ _ => .serializationFailed
  | write _ _ _ => .writeFailed
  | outputDirectory _ _ => .outputDirectoryFailed
  | duplicateAdapter _ => .adapterDuplicate
  | duplicateFileName _ _ _ => .fileNameDuplicate

def message : ExportError → String
  | serialization adapter message =>
    "Adapter '" ++ adapter ++ "' failed to serialize its document: " ++ message
  | write adapter path message =>
    "Adapter '" ++ adapter ++ "' failed to write '" ++ path ++ "': " ++ message
  | outputDirectory path message =>
    "Failed to create output directory '" ++ path ++ "': " ++ message
  | duplicateAdapter id => "Duplicate export adapter id: " ++ id
  | duplicateFileName id fileName existing =>
    "Adapter '" ++ id ++ "' writes '" ++ fileName ++ "', already claimed by adapter '"
      ++ existing ++ "'"

/-- The adapter that an error is about, if it is about one. -/
def adapter? : ExportError → Option String
  | serialization adapter _ | write adapter _ _ => some adapter
  | outputDirectory _ _ => none
  | duplicateAdapter id | duplicateFileName id _ _ => some id

end ExportError

/-! ## Context -/

/-- A document as the overview lists it. -/
structure ManifestEntry where
  fileName : String
  description : String
deriving DecidableEq, Repr

/-- What all documents of a run share. -/
structure DocumentContext where
  documentName : String
  schemaVersion : String
  /-- The stamp of the run; without one, equal inputs give equal documents. -/
  generatedAt : Option Instant
  /-- The path of the source as it was given. -/
  source : String
  /-- The documents of the run in the order of their adapters. -/
  manifest : List ManifestEntry
deriving DecidableEq, Repr

/-! ## Adapters -/

/-- A document that is ready to be written. -/
structure Document where
  adapter : String
  fileName : String
  contents : String
deriving DecidableEq, Repr

/-- A format that a model can be written in. -/
structure Adapter where
  id : String
  /-- The name of the document in the output directory. -/
  fileName : String
  description : String
  /-- The text of the document. -/
  render : TokenModel → DocumentContext → Except ExportError String

namespace Adapter

def produce (a : Adapter) (m : TokenModel) (ctx : DocumentContext) : Except ExportError Document :=
  match a.render m ctx with
  | .ok contents => .ok ⟨a.id, a.fileName, contents⟩
  | .error e => .error e

/-- How the overview lists the document of an adapter. -/
def manifestEntry (a : Adapter) : ManifestEntry :=
  ⟨a.fileName, a.description⟩

/-- What there is to say once an adapter is registered. -/
def notice (a : Adapter) : Notice :=
  .debug "Registered export adapter" [("adapter", a.id), ("file", a.fileName)]

end Adapter

end DesignTokens
