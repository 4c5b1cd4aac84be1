import DesignTokens.CommandLine.Arguments
import DesignTokens.Run.Export
import DesignTokens.Settings.File

/-!
# The command

The command reads its arguments, settles what to run, runs it, and says what happened. Log lines
about problems go to the error stream together with the report on them; everything else goes to the
output.
-/

namespace DesignTokens.CommandLine

/-! ## Fixed texts -/

/-- The lines of texts, each with its line feed. -/
def linesText (texts : List String) : String :=
  String.join (texts.map (· ++ "\n"))

/-- The name and the version of the command. -/
def versionText : String := "export-tokens 0.1.0\n"

/-- The description of the options. -/
def helpText : String :=
  linesText [
    "Export design tokens to JSON, CSS and design-tool formats",
    "",
    "Usage: export-tokens [OPTIONS]",
    "",
    "Options:",
    "      --source <FILE>                    Token source file",
    "      --out-dir <DIR>                    Directory the documents are written into",
    "      --config <FILE>                    TOML configuration file",
    "      --name <NAME>                      Document name carried by the design-tool envelopes",
    "      --schema-version <SCHEMA_VERSION>  Schema version carried by the design-tool envelopes",
    "      --timestamp                        Embed a generatedAt timestamp",
    "      --no-readme                        Skip the README manifest",
    "      --log-level <LEVEL>                Minimum log level (error, warning, info, debug)",
    "      --structured-logs                  Emit JSON-lines log events",
    "  -h, --help                             Print help",
    "  -V, --version                          Print version" ]

/-! ## What the command says -/

structure CommandResult where
  exitCode : UInt8
  output : String
  /-- What goes to the error stream. -/
  complaints : String
deriving DecidableEq, Repr

def eventLine (structured : Bool) (e : LogEvent) : String :=
  if structured then e.jsonLine else e.text

/-- The lines of the events of a log that pass the minimum and go to the stream of complaints, or
to the other one. -/
def logText (l : LogPreferences) (complaints : Bool) (events : List LogEvent) : String :=
  linesText (((passing l.minimum events).filter fun e => e.level.isComplaint == complaints).map
    (eventLine l.structured))

/-- The line about the problems of a run; a run without any has none. -/
def statusLine? (o : RunOutcome) (s : Collector.Summary) : Option String :=
  if !s.hasErrors && !s.hasWarnings && o.warnings.isEmpty then none
  else some <|
    "export-tokens: " ++ toString s.totalErrors ++ " error(s), " ++ toString s.totalWarnings
      ++ " warning(s) logged, " ++ toString o.warnings.length ++ " value(s) skipped"
      ++ (if o.failedAdapters.isEmpty then ""
        else "; failed adapters: " ++ ", ".intercalate o.failedAdapters)

def CommandResult.ofRun (l : LogPreferences) (log : Log) (result : Except RunError RunOutcome) :
    CommandResult :=
  let report := log.collector.report
  match result with
  | .error e =>
    { exitCode := 1
      output := logText l false log.events
      complaints := logText l true log.events ++ "Error: " ++ e.message ++ "\n" ++ report }
  | .ok o =>
    { exitCode := if o.isSuccess then 0 else 1
      output := logText l false log.events ++ o.summary ++ "\n"
      complaints := logText l true log.events ++ report
        ++ linesText (statusLine? o log.collector.summary).toList }

/-! ## Running -/

/-- What there is to say once logging is set up. -/
def loggingReady : Notice :=
  .success .loggingReady "Global logging system initialized" []

/-- The log of a job that has been run. -/
def logOf (l : LogPreferences) (time : Int) (job : ExportJob) (notices : List Notice) : Log :=
  (Log.start l.showsFile time).afterAll
    [.note [loggingReady], .note job.notices,
      .inside job.preferences.sourcePath [.note notices]]

variable {m : Type → Type} [Monad m]

/-- The settings in front of the arguments: those of the file, if one is given. -/
def baseSettings (host : Host m) (env : Environment) (a : Arguments) :
    m (Except ConfigError Settings) := do
  match a.config with
  | some path => ConfigFile.load host env path
  | none => return .ok env.settings

/-- Runs what arguments ask for. -/
def perform (host : Host m) (env : Environment) (a : Arguments) : m CommandResult := do
  match a.resolve (← baseSettings host env a) with
  | .error e => return ⟨1, "", "Error: " ++ e.message ++ "\n"⟩
  | .ok s =>
    let job := ExportJob.standard s.preferences
    let time := (← host.now).milliseconds
    let r ← job.run host
    return .ofRun s.logging (logOf s.logging time job r.notices) r.result

/-- Runs the command on a host. -/
def command (host : Host m) (env : Environment) (words : List String) : m CommandResult := do
  match Request.read words with
  | .error e => return ⟨2, "", e.message⟩
  | .ok .help => return ⟨0, helpText, ""⟩
  | .ok .version => return ⟨0, versionText, ""⟩
  | .ok (.run a) => perform host env a

end DesignTokens.CommandLine
