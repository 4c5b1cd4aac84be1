import DesignTokens.Settings.Preferences
import DesignTokens.Storage.Host
import DesignTokens.Toml.Reader

/-!
# Configuration files

A configuration file is a TOML document with a table for the preferences and one for the logging.
What the file gives takes the place of what the environment gives. Unknown keys do not count; a
known key with a value of another type makes the file malformed. A table may also be written as an
array with the values of its fields in order.
-/

namespace DesignTokens.ConfigFile

open Toml

/-! ## Values of fields -/

def asText : Item → Option String
  | .string s => some s
  | _ => none

/-- A truth value. -/
def asBool : Item → Option Bool
  | .bool b => some b
  | _ => none

/-- Whether there is nothing in an array or a table. -/
def isEmptyItem : Item → Bool
  | .array items => items.isEmpty
  | .inline entries | .table _ entries => entries.isEmpty
  | .tables latestFirst => latestFirst.isEmpty
  | _ => false

/-- A level: its name, or a table whose only key is the name and stands for nothing. -/
def asLevel : Item → Option LogLevel
  | .string s => LogLevel.ofName? s
  | .inline [(name, item)] | .table _ [(name, item)] =>
    if isEmptyItem item then LogLevel.ofName? name else none
  | _ => none

/-! ## Fields of tables -/

/-- The fields of a table that are given, under their names. A time has none of the known fields. -/
def fieldsOf (names : List String) : Item → Option Entries
  | .inline entries | .table _ entries => some entries
  | .array items => some (names.zip items)
  | .tables latestFirst => some (names.zip (latestFirst.reverse.map (.table .header)))
  | .time => some []
  | _ => none

/-- A field: its value if it is given, and what stands in for it otherwise. -/
def field {α : Type} (read : Item → Option α) (entries : Entries) (name : String)
    (default : α) : Option α :=
  match entries.get? name with
  | some item => read item
  | none => some default

def preferences (base : ExportPreferences) (item : Item) : Option ExportPreferences := do
  let names := ["source_path", "output_dir", "document_name", "schema_version",
    "embed_timestamp", "generate_readme"]
  let es ← fieldsOf names item
  return {
    sourcePath := ← field asText es "source_path" base.sourcePath
    outputDir := ← field asText es "output_dir" base.outputDir
    documentName := ← field asText es "document_name" base.documentName
    schemaVersion := ← field asText es "schema_version" base.schemaVersion
    embedTimestamp := ← field asBool es "embed_timestamp" base.embedTimestamp
    generateReadme := ← field asBool es "generate_readme" base.generateReadme }

def logging (base : LogPreferences) (item : Item) : Option LogPreferences := do
  let names := ["use_structured_logging", "min_log_level", "include_file_context"]
  let es ← fieldsOf names item
  return {
    structured := ← field asBool es "use_structured_logging" base.structured
    minimum := ← field asLevel es "min_log_level" base.minimum
    showsFile := ← field asBool es "include_file_context" base.showsFile }

/-- The settings of a document, on top of those of the environment. -/
def layer (base : Settings) (document : Entries) : Option Settings := do
  return {
    preferences := ← field (preferences base.preferences) document "export" base.preferences
    logging := ← field (logging base.logging) document "logging" base.logging }

def read (env : Environment) (path text : String) : Except ConfigError Settings :=
  match (Toml.read text).bind (layer env.settings) with
  | none => .error (.malformed path)
  | some s => match s.preferences.fault? with
    | some e => .error e
    | none => .ok s

/-- The settings of a file. -/
def load {m : Type → Type} [Monad m] (host : Host m) (env : Environment) (path : String) :
    m (Except ConfigError Settings) := do
  match ← host.readText path with
  | .ok text => return read env path text
  | .error fault => return .error (.unreadable path fault.message)

end DesignTokens.ConfigFile
