import DesignTokens.Log.Code
import DesignTokens.Log.Level
import DesignTokens.Text.Blank

/-!
# Settings

What a run reads and writes, what its documents say, and what it logs. A setting that is not given
is taken from the environment, and if the environment does not give it, from the defaults.
-/

namespace DesignTokens

/-- What a run reads and writes, and what its documents say. -/
structure ExportPreferences where
  sourcePath : String
  outputDir : String
  documentName : String
  schemaVersion : String
  /-- Whether documents carry the instant of the run. -/
  embedTimestamp : Bool
  /-- Whether the overview is written. -/
  generateReadme : Bool
deriving DecidableEq, Repr

structure LogPreferences where
  /-- Whether log lines are JSON. -/
  structured : Bool
  minimum : LogLevel
  /-- Whether events show the file that is being processed. -/
  showsFile : Bool
deriving DecidableEq, Repr

/-- All settings of a run. -/
structure Settings where
  preferences : ExportPreferences
  logging : LogPreferences
deriving DecidableEq, Repr

/-! ## Errors -/

/-- Why settings cannot be used. -/
inductive ConfigError where
  | unreadable (path message : String)
  | malformed (path : String)
  | invalidValue (field reason : String)
deriving DecidableEq, Repr

namespace ConfigError

def code : ConfigError → LogCode
  | unreadable _ _ => .configUnreadable
  | malformed _ => .configMalformed
  | invalidValue _ _ => .configValueInvalid

/-- What is said of a malformed file beside its path. -/
def malformedText : String := "not a TOML document with the expected values"

def message : ConfigError → String
  | unreadable path message => "Failed to read configuration file '" ++ path ++ "': " ++ message
  | malformed path => "Invalid configuration in '" ++ path ++ "': " ++ malformedText
  | invalidValue field reason => "Invalid configuration value for '" ++ field ++ "': " ++ reason

end ConfigError

namespace ExportPreferences

/-- The first reason against some preferences, in the order of the fields. -/
def fault? (p : ExportPreferences) : Option ConfigError :=
  if p.sourcePath = "" then some (.invalidValue "source_path" "path is empty")
  else if p.outputDir = "" then some (.invalidValue "output_dir" "path is empty")
  else if Text.isAllBlank p.documentName.toList then
    some (.invalidValue "document_name" "name is blank")
  else if Text.isAllBlank p.schemaVersion.toList then
    some (.invalidValue "schema_version" "version is blank")
  else none

end ExportPreferences

/-! ## The environment -/

/-- The values of environment variables. -/
abbrev Environment := String → Option String

namespace Environment

def ofList (pairs : List (String × String)) : Environment :=
  fun name => (pairs.find? fun p => p.1 = name).map (·.2)

/-- A truth value, written in lower case. -/
def readBool (s : String) : Option Bool :=
  if s = "true" then some true else if s = "false" then some false else none

/-- The truth value of a variable; one that cannot be read counts as missing. -/
def bool (env : Environment) (name : String) (default : Bool) : Bool :=
  ((env name).bind readBool).getD default

/-- The variables that are looked up. -/
def variableNames : List String :=
  ["TOKENS_SOURCE_PATH", "TOKENS_OUTPUT_DIR", "TOKENS_DOCUMENT_NAME", "TOKENS_SCHEMA_VERSION",
    "TOKENS_EMBED_TIMESTAMP", "TOKENS_GENERATE_README", "TOKENS_LOGGING_USE_STRUCTURED",
    "TOKENS_LOGGING_MIN_LEVEL", "TOKENS_LOGGING_INCLUDE_FILE_CONTEXT"]

def preferences (env : Environment) : ExportPreferences where
  sourcePath := (env "TOKENS_SOURCE_PATH").getD "lib/shared/design/tokens/design_tokens.dart"
  outputDir := (env "TOKENS_OUTPUT_DIR").getD "design-tokens"
  documentName := (env "TOKENS_DOCUMENT_NAME").getD "NutryFlow Design Tokens"
  schemaVersion := (env "TOKENS_SCHEMA_VERSION").getD "1.0.0"
  embedTimestamp := env.bool "TOKENS_EMBED_TIMESTAMP" false
  generateReadme := env.bool "TOKENS_GENERATE_README" true

def logging (env : Environment) : LogPreferences where
  structured := env.bool "TOKENS_LOGGING_USE_STRUCTURED" false
  minimum := ((env "TOKENS_LOGGING_MIN_LEVEL").bind LogLevel.read?).getD .warning
  showsFile := env.bool "TOKENS_LOGGING_INCLUDE_FILE_CONTEXT" true

def settings (env : Environment) : Settings :=
  ⟨env.preferences, env.logging⟩

end Environment

end DesignTokens
