/-!
# Log codes

Every event has a code. The registry says for the codes of problems how grave they are, whether a
run can go on, and what the user can do. A code that is not registered counts as a recoverable
problem of middling gravity.
-/

namespace DesignTokens

/-- How grave a problem is. -/
inductive Severity where
  | critical
  | high
  | medium
  | low
deriving DecidableEq, Repr

def Severity.label : Severity → String
  | critical => "Critical"
  | high => "High"
  | medium => "Medium"
  | low => "Low"

/-- The code of an event. -/
structure LogCode where
  text : String
deriving DecidableEq, Repr

namespace LogCode

/-! ## Codes of problems -/

def internalError : LogCode := ⟨"ERR001"⟩
def initializationFailure : LogCode := ⟨"ERR002"⟩
def sourceNotFound : LogCode := ⟨"E005"⟩
def sourceTooLarge : LogCode := ⟨"E007"⟩
def sourceNotPermitted : LogCode := ⟨"E009"⟩
def sourceNotText : LogCode := ⟨"E010"⟩
def sourceUnreadable : LogCode := ⟨"E011"⟩
def sourcePathInvalid : LogCode := ⟨"E012"⟩
def patternMalformed : LogCode := ⟨"E020"⟩
def ruleDuplicate : LogCode := ⟨"E021"⟩
def hitLimitReached : LogCode := ⟨"W101"⟩
def nameTooLong : LogCode := ⟨"W102"⟩
def malformedNumber : LogCode := ⟨"W201"⟩
def malformedColor : LogCode := ⟨"W202"⟩
def malformedDuration : LogCode := ⟨"W203"⟩
def malformedOffset : LogCode := ⟨"W204"⟩
def serializationFailed : LogCode := ⟨"E300"⟩
def writeFailed : LogCode := ⟨"E301"⟩
def outputDirectoryFailed : LogCode := ⟨"E302"⟩
def adapterDuplicate : LogCode := ⟨"E303"⟩
def fileNameDuplicate : LogCode := ⟨"E304"⟩
def configUnreadable : LogCode := ⟨"E400"⟩
def configMalformed : LogCode := ⟨"E401"⟩
def configValueInvalid : LogCode := ⟨"E402"⟩

/-! ## Codes of progress -/

/-- An event that only informs. -/
def info : LogCode := ⟨"I000"⟩

def debug : LogCode := ⟨"D000"⟩

/-- The marker behind the last event kept for a file. -/
def overflow : LogCode := ⟨"W000"⟩

def loggingReady : LogCode := ⟨"I004"⟩
def sourceRead : LogCode := ⟨"I006"⟩
def scanComplete : LogCode := ⟨"I020"⟩
def modelBuilt : LogCode := ⟨"I030"⟩
def documentWritten : LogCode := ⟨"I040"⟩
def exportComplete : LogCode := ⟨"I041"⟩
def nothingToExport : LogCode := ⟨"I042"⟩

/-! ## The registry -/

/-- What the registry holds about a code. -/
structure Entry where
  code : LogCode
  category : String
  severity : Severity
  recoverable : Bool
  halts : Bool
  description : String
  action : String

/-- A problem that ends a run. -/
def fatal (code : LogCode) (category : String) (severity : Severity)
    (description action : String) : Entry :=
  ⟨code, category, severity, false, true, description, action⟩

/-- A problem that a run goes on after. -/
def passing (code : LogCode) (category : String) (severity : Severity)
    (description action : String) : Entry :=
  ⟨code, category, severity, true, false, description, action⟩

/-- All registered codes. -/
def registry : List Entry :=
  [ fatal internalError "System" .critical
      "Critical internal error"
      "File a bug report with the run log attached",
    fatal initializationFailure "System" .critical
      "Pipeline initialization failed"
      "Check the pattern library and adapter registration",
    fatal sourceNotFound "FileProcessing" .critical
      "Token source file not found"
      "Check the configured source path",
    fatal sourceTooLarge "FileProcessing" .high
      "Token source exceeds the maximum supported size"
      "Split the token definitions or raise the compile-time limit",
    fatal sourceNotPermitted "FileProcessing" .critical
      "Permission denied reading the token source"
      "Check file permissions",
    fatal sourceNotText "FileProcessing" .high
      "Token source is not valid UTF-8"
      "Re-save the source with UTF-8 encoding",
    fatal sourceUnreadable "FileProcessing" .high
      "I/O error reading the token source"
      "Check disk health and retry",
    fatal sourcePathInvalid "FileProcessing" .high
      "Token source path is invalid"
      "Point the source path at a regular file",
    fatal patternMalformed "Patterns" .critical
      "Extraction pattern failed to compile"
      "Fix the regular expression in the rule definition",
    fatal ruleDuplicate "Patterns" .critical
      "Two extraction rules share one id"
      "Give every rule a unique id",
    passing hitLimitReached "Scanning" .medium
      "Rule produced more matches than the per-rule limit"
      "Check the source for generated or duplicated definitions",
    passing nameTooLong "Scanning" .low
      "Captured token name exceeds the maximum length"
      "Shorten the token name",
    passing malformedNumber "Building" .low
      "Numeric token value could not be parsed"
      "Use a plain decimal literal in the token definition",
    passing malformedColor "Building" .low
      "Color token value could not be normalized"
      "Use a 6- or 8-digit hex literal",
    passing malformedDuration "Building" .low
      "Duration token value is not a whole number of milliseconds"
      "Use an integer millisecond literal",
    passing malformedOffset "Building" .low
      "Shadow offset is not an (x, y) pair of numbers"
      "Use Offset(<x>, <y>) with numeric literals",
    passing serializationFailed "Export" .high
      "Document serialization failed"
      "File a bug report naming the failing adapter",
    passing writeFailed "Export" .high
      "Document could not be written"
      "Check that the output directory is writable",
    passing outputDirectoryFailed "Export" .high
      "Output directory could not be created"
      "Check the configured output directory",
    fatal adapterDuplicate "Export" .critical
      "Two export adapters share one id"
      "Register each adapter once",
    fatal fileNameDuplicate "Export" .critical
      "Two export adapters write the same file"
      "Give every adapter a distinct file name",
    fatal configUnreadable "Config" .high
      "Configuration file could not be read"
      "Check the --config path",
    fatal configMalformed "Config" .high
      "Configuration file is not valid TOML"
      "Fix the syntax reported in the error",
    fatal configValueInvalid "Config" .high
      "Configuration value is out of range"
      "Fix the named field" ]

def entry? (c : LogCode) : Option Entry :=
  registry.find? fun e => e.code.text == c.text

/-- How grave the problem of a code is. -/
def severity (c : LogCode) : Severity :=
  (c.entry?.map (·.severity)).getD .medium

/-- Whether a run can recover from the problem of a code. -/
def recoverable (c : LogCode) : Bool :=
  (c.entry?.map (·.recoverable)).getD true

/-- Whether the problem of a code ends a run. -/
def halts (c : LogCode) : Bool :=
  (c.entry?.map (·.halts)).getD false

def description (c : LogCode) : String :=
  (c.entry?.map (·.description)).getD "Unknown error"

/-- The action of a code that is not registered. -/
def noAction : String := "No specific action available"

/-- What the user can do about the problem of a code. -/
def action (c : LogCode) : String :=
  (c.entry?.map (·.action)).getD noAction

/-- The part of the program that a code belongs to. -/
def category (c : LogCode) : String :=
  (c.entry?.map (·.category)).getD "Unknown"

/-- No code is registered twice. -/
theorem registry_codes_nodup : (registry.map (·.code)).Nodup := by
  decide

/-- A registered problem either ends a run or can be recovered from. -/
theorem halts_eq_not_recoverable : ∀ e ∈ registry, e.halts = !e.recoverable := by
  decide

end LogCode

end DesignTokens
