import DesignTokens.Run.Job
import DesignTokens.Storage.Source

/-!
# Outcomes of runs

A run fails if its source or its output directory cannot be used. Otherwise it ends with nothing to
export, or with a report on every adapter.
-/

namespace DesignTokens

/-- Why a run did not take place. -/
inductive RunError where
  | sourceUnavailable (e : SourceError)
  | registryRefused (e : ExportError)
  | outputUnavailable (e : ExportError)
deriving DecidableEq, Repr

namespace RunError

def code : RunError → LogCode
  | sourceUnavailable e => e.code
  | registryRefused e | outputUnavailable e => e.code

def message : RunError → String
  | sourceUnavailable e => "Token source unavailable: " ++ e.message
  | registryRefused e => "Adapter registry rejected an adapter: " ++ e.message
  | outputUnavailable e => "Output directory unavailable: " ++ e.message

end RunError

/-- What a run is doing. -/
inductive RunState where
  | idle
  | scanning
  | exporting (adapter : String)
  | done
deriving DecidableEq, Repr

def RunState.text : RunState → String
  | idle => "idle"
  | scanning => "scanning"
  | exporting adapter => "exporting(" ++ adapter ++ ")"
  | done => "done"

/-- A document in its file. -/
structure WrittenDocument where
  adapter : String
  path : String
  bytes : Nat
deriving DecidableEq, Repr

/-- What a run with tokens did. -/
structure RunReport where
  outputDir : String
  written : List WrittenDocument
  failed : List AdapterFailure
  warnings : List BuildWarning
  counts : List (Category × Nat)
  metrics : ScanMetrics
  history : List RunState
  nanos : Nat
deriving DecidableEq, Repr

namespace RunReport

/-- Whether every adapter gave its document. -/
def isSuccess (r : RunReport) : Bool := r.failed.isEmpty

/-- The number of tokens. -/
def total (r : RunReport) : Nat := countTotal r.counts

def failedAdapters (r : RunReport) : List String := r.failed.map (·.adapter)

def summary (r : RunReport) : String :=
  "Exported " ++ toString r.total ++ " tokens to " ++ r.outputDir ++ " ("
    ++ toString r.written.length ++ " written, " ++ toString r.failed.length ++ " failed)\n"
    ++ "  tokens    "
    ++ ", ".intercalate (r.counts.map fun (c, n) => c.name ++ ": " ++ toString n) ++ "\n"
    ++ String.join (r.written.map fun d =>
      "  written   " ++ d.path ++ " (" ++ d.adapter ++ ")\n")
    ++ String.join (r.failed.map fun f =>
      "  failed    " ++ f.adapter ++ ": " ++ f.error.message ++ "\n")
    ++ (if r.warnings.isEmpty then ""
      else "  warnings  " ++ toString r.warnings.length ++ " malformed value(s) skipped\n")
    ++ "  finished in " ++ millisecondsText r.nanos ++ "ms"

end RunReport

/-- How a run ended whose source could be read. -/
inductive RunOutcome where
  /-- The source declares no tokens; no adapter was asked and nothing was written. -/
  | nothingToExport (warnings : List BuildWarning) (history : List RunState)
  | completed (report : RunReport)
deriving DecidableEq, Repr

namespace RunOutcome

/-- Whether no adapter failed. -/
def isSuccess : RunOutcome → Bool
  | nothingToExport _ _ => true
  | completed report => report.isSuccess

def history : RunOutcome → List RunState
  | nothingToExport _ history => history
  | completed report => report.history

/-- The texts that could not be read. -/
def warnings : RunOutcome → List BuildWarning
  | nothingToExport warnings _ => warnings
  | completed report => report.warnings

def summary : RunOutcome → String
  | nothingToExport _ _ => "No tokens found in source, nothing to export"
  | completed report => report.summary

def failedAdapters : RunOutcome → List String
  | nothingToExport _ _ => []
  | completed report => report.failedAdapters

end RunOutcome

end DesignTokens
