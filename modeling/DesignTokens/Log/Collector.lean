import DesignTokens.Log.Event
import DesignTokens.Storage.Path

/-!
# Collected events

Events are kept by file, in the order of the files' paths. A file keeps its first thousand events
and one marker if there were more. The report has a block for each file with errors or warnings.
-/

namespace DesignTokens

/-- The greatest number of events kept for a file. -/
def eventLimit : Nat := 1000

/-- The events of a file; it is shown under the path that was recorded first. -/
structure FileEvents where
  path : String
  events : List LogEvent

/-- The files with recorded events, in the order of their paths. -/
structure Collector where
  files : List FileEvents

namespace FileEvents

/-- The marker that stands for all further events. -/
def overflowMarker : LogEvent :=
  .warning .overflow s!"Too many events for file (limit: {eventLimit})"

/-- One more event of a file, or the marker, or nothing behind the marker. -/
def record (f : FileEvents) (e : LogEvent) : FileEvents :=
  if f.events.length < eventLimit then { f with events := f.events ++ [e] }
  else if f.events.length = eventLimit then { f with events := f.events ++ [overflowMarker] }
  else f

def errors (f : FileEvents) : List LogEvent := f.events.filter (·.isError)

def warnings (f : FileEvents) : List LogEvent := f.events.filter (·.isWarning)

end FileEvents

namespace Collector

/-- A collector without events. -/
def empty : Collector := ⟨[]⟩

def recordIn (path : String) (e : LogEvent) : List FileEvents → List FileEvents
  | [] => [FileEvents.record ⟨path, []⟩ e]
  | f :: rest =>
    if Path.same path f.path then f.record e :: rest
    else if Path.partsBefore (Path.parts path) (Path.parts f.path) then
      FileEvents.record ⟨path, []⟩ e :: f :: rest
    else f :: recordIn path e rest

def record (c : Collector) (path : String) (e : LogEvent) : Collector :=
  ⟨recordIn path e c.files⟩

/-- The events kept for a file. -/
def eventsOf (c : Collector) (path : String) : List LogEvent :=
  match c.files.find? fun f => Path.same f.path path with
  | some f => f.events
  | none => []

/-! ## Summary -/

/-- The counts over all files. -/
structure Summary where
  totalFiles : Nat
  filesWithErrors : Nat
  filesWithWarnings : Nat
  totalErrors : Nat
  totalWarnings : Nat
deriving DecidableEq, Repr

def Summary.hasErrors (s : Summary) : Bool := 0 < s.totalErrors

def Summary.hasWarnings (s : Summary) : Bool := 0 < s.totalWarnings

/-- Counts files and events. A file with errors does not count among those with warnings. -/
def summary (c : Collector) : Summary where
  totalFiles := c.files.length
  filesWithErrors := c.files.countP fun f => !f.errors.isEmpty
  filesWithWarnings := c.files.countP fun f => f.errors.isEmpty && !f.warnings.isEmpty
  totalErrors := (c.files.flatMap (·.errors)).length
  totalWarnings := (c.files.flatMap (·.warnings)).length

/-! ## Report -/

/-- Where an event stands, if it has a line. -/
def location (path : String) (e : LogEvent) : String :=
  match e.line with
  | some n => " --> " ++ path ++ ":" ++ toString n
  | none => ""

/-- The details of an event, a line each. The file is left out: the block names it. -/
def detailLines (e : LogEvent) : String :=
  String.join <| (e.details.filter fun (k, _) => k != "file").map fun (k, v) =>
    "  = " ++ k ++ ": " ++ v ++ "\n"

def errorEntry (path : String) (e : LogEvent) : String :=
  "error[" ++ e.code.text ++ "]: " ++ e.message ++ location path e ++ "\n"
    ++ "  = severity: " ++ e.code.severity.label ++ ", category: " ++ e.code.category ++ "\n"
    ++ detailLines e
    ++ (if e.code.action = LogCode.noAction then "" else "  = help: " ++ e.code.action ++ "\n")

def warningEntry (path : String) (e : LogEvent) : String :=
  "warning[" ++ e.code.text ++ "]: " ++ e.message ++ location path e ++ "\n" ++ detailLines e

/-- The block of a file; a file without errors and warnings has none. -/
def block (f : FileEvents) : String :=
  if f.errors.isEmpty && f.warnings.isEmpty then ""
  else
    "Checking " ++ f.path ++ "...\n"
      ++ String.join (f.errors.map (errorEntry f.path))
      ++ String.join (f.warnings.map (warningEntry f.path))
      ++ "\n"

/-- The lines at the end of the report; a total of zero has none. -/
def totals (s : Summary) : String :=
  (if s.hasErrors then "Total errors: " ++ toString s.totalErrors ++ "\n" else "")
    ++ (if s.hasWarnings then "Total warnings: " ++ toString s.totalWarnings ++ "\n" else "")

/-- The report on all files. -/
def report (c : Collector) : String :=
  String.join (c.files.map block) ++ totals c.summary

end Collector

end DesignTokens
