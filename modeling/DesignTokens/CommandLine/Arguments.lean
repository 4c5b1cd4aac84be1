import DesignTokens.Settings.Preferences
import DesignTokens.Text.Control

/-!
# Command line arguments

Some options take a value and some are switches. A value stands behind its option or, after an
equals sign, in it. An option takes effect when the next one is read or when the line ends, so a
word that is no option is complained about before the value in front of it.
-/

namespace DesignTokens.CommandLine

/-! ## Options -/

inductive ValueOption where
  | source
  | outDir
  | config
  | name
  | schemaVersion
  | logLevel
deriving DecidableEq, Repr

/-- An option that takes none. -/
inductive SwitchOption where
  | timestamp
  | noReadme
  | structuredLogs
deriving DecidableEq, Repr

namespace ValueOption

def shown : ValueOption → String
  | source => "--source <FILE>"
  | outDir => "--out-dir <DIR>"
  | config => "--config <FILE>"
  | name => "--name <NAME>"
  | schemaVersion => "--schema-version <SCHEMA_VERSION>"
  | logLevel => "--log-level <LEVEL>"

def takesPath : ValueOption → Bool
  | source | outDir | config => true
  | name | schemaVersion | logLevel => false

end ValueOption

def SwitchOption.shown : SwitchOption → String
  | timestamp => "--timestamp"
  | noReadme => "--no-readme"
  | structuredLogs => "--structured-logs"

/-- What a word with dashes in front asks for. -/
inductive Wish where
  | set (o : ValueOption)
  | turnOn (o : SwitchOption)
  | help
  | version
deriving DecidableEq, Repr

namespace Wish

/-- The wish of a word behind two dashes. -/
def ofWord? (word : String) : Option Wish :=
  if word = "source" then some (.set .source)
  else if word = "out-dir" then some (.set .outDir)
  else if word = "config" then some (.set .config)
  else if word = "name" then some (.set .name)
  else if word = "schema-version" then some (.set .schemaVersion)
  else if word = "log-level" then some (.set .logLevel)
  else if word = "timestamp" then some (.turnOn .timestamp)
  else if word = "no-readme" then some (.turnOn .noReadme)
  else if word = "structured-logs" then some (.turnOn .structuredLogs)
  else if word = "help" then some .help
  else if word = "version" then some .version
  else none

/-- The wish of a letter behind one dash. -/
def ofLetter? (c : Char) : Option Wish :=
  if c = 'h' then some .help else if c = 'V' then some .version else none

end Wish

/-! ## Errors -/

/-- Why a command line cannot be used. -/
inductive UsageError where
  | unexpected (argument : String)
  | valueMissing (o : ValueOption)
  | valueUnexpected (option value : String)
  | repeated (option : String)
  | unknownLevel (value : String)
deriving DecidableEq, Repr

/-- The words at the end of every complaint about a command line, behind the end of the first
line. -/
def closingPieces (lineEnd : String) : List String :=
  [lineEnd ++ "\n\nFor more information, try '", "--help", "'.\n"]

/-- A complaint in the pieces that a terminal would show in different styles. -/
def UsageError.pieces : UsageError → List String
  | unexpected argument =>
    ["error: unexpected argument '", argument] ++ closingPieces "' found"
  | valueMissing o =>
    ["error: a value is required for '", o.shown] ++ closingPieces "' but none was supplied"
  | valueUnexpected option value =>
    ["error: unexpected value '", value, "' for '", option]
      ++ closingPieces "' found; no more were expected"
  | repeated option =>
    ["error: the argument '", option] ++ closingPieces "' cannot be used multiple times"
  | unknownLevel value =>
    ["error: invalid value '", value, "' for '", ValueOption.logLevel.shown]
      ++ closingPieces ("': unknown log level '" ++ value ++ "'")

/-- The text of a complaint without its styles. The change of style between two pieces ends every
control sequence, so what a piece hides is its own affair. -/
def UsageError.message (e : UsageError) : String :=
  String.join (e.pieces.map Text.visible)

/-! ## What a command line sets -/

/-- The options that are given. -/
structure Arguments where
  source : Option String
  outDir : Option String
  config : Option String
  name : Option String
  schemaVersion : Option String
  logLevel : Option LogLevel
  timestamp : Bool
  noReadme : Bool
  structuredLogs : Bool
deriving DecidableEq, Repr

/-- An option that is waiting for its value, or has it and has not taken effect. -/
structure Pending where
  option : ValueOption
  value : Option String
deriving DecidableEq, Repr

namespace Arguments

/-- No option at all. -/
def none : Arguments := ⟨.none, .none, .none, .none, .none, .none, false, false, false⟩

def has (a : Arguments) : ValueOption → Bool
  | .source => a.source.isSome
  | .outDir => a.outDir.isSome
  | .config => a.config.isSome
  | .name => a.name.isSome
  | .schemaVersion => a.schemaVersion.isSome
  | .logLevel => a.logLevel.isSome

def isOn (a : Arguments) : SwitchOption → Bool
  | .timestamp => a.timestamp
  | .noReadme => a.noReadme
  | .structuredLogs => a.structuredLogs

/-- Gives an option a value that it can have. -/
def assign (a : Arguments) (o : ValueOption) (value : String) : Except UsageError Arguments :=
  match o with
  | .source => .ok { a with source := some value }
  | .outDir => .ok { a with outDir := some value }
  | .config => .ok { a with config := some value }
  | .name => .ok { a with name := some value }
  | .schemaVersion => .ok { a with schemaVersion := some value }
  | .logLevel => match LogLevel.read? value with
    | some level => .ok { a with logLevel := some level }
    | .none => .error (.unknownLevel value)

/-- Gives an option its value. A missing value counts before an option that is given twice, and
that before a value that the option cannot have. -/
def set (a : Arguments) (o : ValueOption) : Option String → Except UsageError Arguments
  | .none => .error (.valueMissing o)
  | some value =>
    if a.has o then .error (.repeated o.shown)
    else if o.takesPath ∧ value = "" then .error (.valueMissing o)
    else a.assign o value

def turnOn (a : Arguments) (o : SwitchOption) : Except UsageError Arguments :=
  if a.isOn o then .error (.repeated o.shown)
  else match o with
    | .timestamp => .ok { a with timestamp := true }
    | .noReadme => .ok { a with noReadme := true }
    | .structuredLogs => .ok { a with structuredLogs := true }

/-- Lets the option that is waiting take effect. -/
def settle (a : Arguments) : Option Pending → Except UsageError Arguments
  | .none => .ok a
  | some p => a.set p.option p.value

end Arguments

/-! ## Reading -/

/-- What a word of the command line is. -/
inductive Word where
  /-- An option behind two dashes, with the value behind its equals sign. -/
  | long (name : String) (value : Option String)
  /-- Letters behind one dash. -/
  | short (letters : List Char)
  | plain (s : String)
deriving DecidableEq, Repr

/-- The parts of a word in front of and behind its first equals sign. -/
def splitEquals (s : List Char) : String × Option String :=
  (String.ofList (s.takeWhile (· ≠ '=')),
   match s.dropWhile (· ≠ '=') with
    | [] => none
    | _ :: value => some (String.ofList value))

/-- What a word is. One dash alone is a plain word, and two dashes alone are none: behind them
there are no options. -/
def Word.ofString? (s : String) : Option Word :=
  match s.toList with
  | ['-', '-'] => none
  | '-' :: '-' :: rest => some (.long (splitEquals rest).1 (splitEquals rest).2)
  | '-' :: c :: rest => some (.short (c :: rest))
  | _ => some (.plain s)

/-- What a command line asks for. -/
inductive Request where
  | run (a : Arguments)
  | help
  | version
deriving DecidableEq, Repr

/-- Where the reading of a command line stands. -/
structure Reader where
  arguments : Arguments
  pending : Option Pending

namespace Reader

/-- Nothing has been read. -/
def start : Reader := ⟨.none, none⟩

/-- What one word leads to: more reading, or an end of it. -/
abbrev Step := Except (Except UsageError Request) Reader

/-- The reading cannot go on. -/
def refuse (e : UsageError) : Step := .error (.error e)

/-- More reading, or an error. -/
def continueWith : Except UsageError Reader → Step
  | .ok r => .ok r
  | .error e => refuse e

/-- Ends with something else than a run, unless the option that is waiting has an error. -/
def answer (r : Reader) (q : Request) : Step :=
  .error ((r.arguments.settle r.pending).map fun _ => q)

/-- Follows a wish that has no value of its own. -/
def follow (r : Reader) : Wish → Step
  | .set o => continueWith ((r.arguments.settle r.pending).map fun a => ⟨a, some ⟨o, none⟩⟩)
  | .turnOn o => continueWith do
    let a ← r.arguments.settle r.pending
    return ⟨← a.turnOn o, none⟩
  | .help => r.answer .help
  | .version => r.answer .version

/-- Follows a wish with a value behind an equals sign. -/
def followWith (r : Reader) (name value : String) : Wish → Step
  | .set o => continueWith do
    let a ← r.arguments.settle r.pending
    return ⟨← a.set o (some value), none⟩
  | .turnOn _ | .help | .version => refuse (.valueUnexpected ("--" ++ name) value)

/-- Follows letters one after the other. -/
def followLetters (r : Reader) : List Char → Step
  | [] => .ok r
  | c :: rest => match Wish.ofLetter? c with
    | none => refuse (.unexpected (String.ofList ['-', c]))
    | some w => match r.follow w with
      | .ok r => r.followLetters rest
      | .error q => .error q

/-- Takes up a word; it may be the value that the last option waits for. -/
def take (r : Reader) (word : Word) : Step :=
  match word with
  | .long name value => match Wish.ofWord? name, value with
    | none, _ => refuse (.unexpected ("--" ++ name))
    | some w, none => r.follow w
    | some w, some value => r.followWith name value w
  | .short letters => r.followLetters letters
  | .plain s => match r.pending with
    | some ⟨o, none⟩ => .ok { r with pending := some ⟨o, some s⟩ }
    | _ => refuse (.unexpected s)

/-- The end of the line. -/
def finish (r : Reader) : Except UsageError Request :=
  (r.arguments.settle r.pending).map .run

/-- Reads words to the end. -/
def read (r : Reader) : List String → Except UsageError Request
  | [] => r.finish
  | s :: rest =>
    match Word.ofString? s with
    | none => match rest with
      | [] => r.finish
      | s :: _ => .error (.unexpected s)
    | some word => match r.take word with
      | .ok r => r.read rest
      | .error q => q

end Reader

/-- What a command line asks for. -/
def Request.read (words : List String) : Except UsageError Request :=
  Reader.start.read words

/-! ## Settings -/

namespace Arguments

/-- The preferences with those that are given in place of the others. The stamp can only be
switched on and the overview only off. -/
def preferences (a : Arguments) (p : ExportPreferences) : ExportPreferences where
  sourcePath := a.source.getD p.sourcePath
  outputDir := a.outDir.getD p.outputDir
  documentName := a.name.getD p.documentName
  schemaVersion := a.schemaVersion.getD p.schemaVersion
  embedTimestamp := a.timestamp || p.embedTimestamp
  generateReadme := !a.noReadme && p.generateReadme

/-- The logging with what is given in place of the other. -/
def logging (a : Arguments) (l : LogPreferences) : LogPreferences where
  structured := a.structuredLogs || l.structured
  minimum := a.logLevel.getD l.minimum
  showsFile := l.showsFile

/-- The settings with those that are given in place of the others. -/
def layer (a : Arguments) (s : Settings) : Settings :=
  ⟨a.preferences s.preferences, a.logging s.logging⟩

/-- The settings of a command line on top of others, unless they cannot be used. -/
def resolve (a : Arguments) (base : Except ConfigError Settings) : Except ConfigError Settings :=
  match base with
  | .error e => .error e
  | .ok s => match (a.layer s).preferences.fault? with
    | some e => .error e
    | .none => .ok (a.layer s)

end Arguments

end DesignTokens.CommandLine
