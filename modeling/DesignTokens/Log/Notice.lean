import DesignTokens.Log.Collector

/-!
# Notices and the log

The stages of a run do not write to a log; they return notices, in order. The log turns a notice
into an event by adding the file that is being processed, and collects errors and warnings under
that file.
-/

namespace DesignTokens

/-- What a stage has to say. -/
structure Notice where
  level : LogLevel
  code : LogCode
  message : String
  line : Option Nat
  details : List (String × String)
deriving DecidableEq, Repr

namespace Notice

/-- An error without a line. -/
def error (code : LogCode) (message : String) (details : List (String × String)) : Notice :=
  ⟨.error, code, message, none, details⟩

def warning (code : LogCode) (message : String) (line : Nat)
    (details : List (String × String)) : Notice :=
  ⟨.warning, code, message, some line, details⟩

def info (message : String) (details : List (String × String)) : Notice :=
  ⟨.info, .info, message, none, details⟩

/-- Information about a step that succeeded. -/
def success (code : LogCode) (message : String) (details : List (String × String)) : Notice :=
  ⟨.info, code, message, none, details⟩

def debug (message : String) (details : List (String × String)) : Notice :=
  ⟨.debug, .debug, message, none, details⟩

/-- The event of a notice at a time. The file, if it is to be shown, takes the place of a detail of
that name. -/
def event (n : Notice) (time : Int) (file : Option String) : LogEvent :=
  let e := (LogEvent.plain n.level n.code n.message).withDetails n.details
  let e := match file with
    | some path => e.withDetail "file" path
    | none => e
  { e with time := time, line := n.line }

/-- Whether the notice is collected under the file that is being processed. -/
def isCollected (n : Notice) : Bool :=
  n.level.isComplaint

end Notice

/-- The log of a process. -/
structure Log where
  /-- Whether events show the file that is being processed. -/
  showsFile : Bool
  /-- The time that events are given. -/
  time : Int
  /-- The file that is being processed. -/
  file : Option String
  events : List LogEvent
  collector : Collector

namespace Log

/-- A log without events. -/
def start (showsFile : Bool) (time : Int) : Log :=
  ⟨showsFile, time, none, [], .empty⟩

/-- The event that a notice amounts to now. -/
def eventOf (log : Log) (n : Notice) : LogEvent :=
  n.event log.time (if log.showsFile then log.file else none)

/-- Collects a notice under the file that is being processed, if there is one. -/
def collect (log : Log) (n : Notice) (c : Collector) : Collector :=
  match log.file with
  | some path => if n.isCollected then c.record path (log.eventOf n) else c
  | none => c

/-- Takes up notices in order. -/
def addAll (log : Log) (notices : List Notice) : Log :=
  { log with
    events := log.events ++ notices.map log.eventOf
    collector := notices.foldl (fun c n => log.collect n c) log.collector }

/-- Takes up a notice. -/
def add (log : Log) (n : Notice) : Log :=
  log.addAll [n]

/-- From now on a file is being processed. -/
def enter (log : Log) (path : String) : Log :=
  { log with file := some path }

/-- From now on no file is being processed. -/
def leave (log : Log) : Log :=
  { log with file := none }

end Log

inductive LogStep where
  | enter (path : String)
  | leave
  | note (notices : List Notice)
  /-- Steps that are taken while a file is being processed; no file is afterwards. -/
  | inside (path : String) (steps : List LogStep)

mutual

def Log.after (log : Log) : LogStep → Log
  | .enter path => log.enter path
  | .leave => log.leave
  | .note notices => log.addAll notices
  | .inside path steps => ((log.enter path).afterAll steps).leave

def Log.afterAll (log : Log) : List LogStep → Log
  | [] => log
  | step :: rest => (log.after step).afterAll rest

end

end DesignTokens
