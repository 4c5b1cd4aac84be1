import DesignTokens.Log.Code
import DesignTokens.Log.Details
import DesignTokens.Log.Level
import DesignTokens.Json.Printer

/-!
# Log events

An event has a level, a code, a message that is never longer than ten thousand bytes and three
dots, possibly a line of the source, and details under keys in the order of the keys. It is
written as one line of text or as one line of JSON.
-/

namespace DesignTokens

/-! ## Message length -/

/-- The last offset in bytes, up to a given one, that is not inside a character of a text. The
search goes back byte by byte; the start of a text is never inside a character. -/
def lastBoundary (text : String) : Nat → Nat
  | 0 => 0
  | n + 1 => if String.Pos.Raw.isValid text ⟨n + 1⟩ then n + 1 else lastBoundary text n

/-- The greatest number of bytes of a message that is kept whole. -/
def messageLimit : Nat := 10000

/-- A message, cut at a character and marked by three dots if it is too long. -/
def truncateMessage (message : String) : String :=
  if message.utf8ByteSize ≤ messageLimit then message
  else String.Pos.Raw.extract message 0 ⟨lastBoundary message messageLimit⟩ ++ "..."

/-! ## Events -/

/-- Something that is worth a line in the log. -/
structure LogEvent where
  /-- Milliseconds after the epoch, negative before it. -/
  time : Int
  level : LogLevel
  code : LogCode
  message : String
  line : Option Nat
  details : Details

namespace LogEvent

/-- An event without line and details, at the epoch. -/
def plain (level : LogLevel) (code : LogCode) (message : String) : LogEvent :=
  ⟨0, level, code, truncateMessage message, none, .empty⟩

def error (code : LogCode) (message : String) : LogEvent := plain .error code message

def warning (code : LogCode) (message : String) : LogEvent := plain .warning code message

/-- Information under the code that all of it shares. -/
def info (message : String) : LogEvent := plain .info .info message

/-- Information about a step that succeeded. -/
def success (code : LogCode) (message : String) : LogEvent := plain .info code message

/-- A note for debugging, under the code that all of them share. -/
def debug (message : String) : LogEvent := plain .debug .debug message

def withLine (e : LogEvent) (line : Nat) : LogEvent := { e with line := some line }

/-- The same event with one more detail. -/
def withDetail (e : LogEvent) (key value : String) : LogEvent :=
  { e with details := e.details.insert key value }

/-- The same event with more details. -/
def withDetails (e : LogEvent) (pairs : List (String × String)) : LogEvent :=
  { e with details := e.details.insertAll pairs }

def isError (e : LogEvent) : Bool := e.level = .error

def isWarning (e : LogEvent) : Bool := e.level = .warning

/-! ## Text -/

/-- The line of a plain log. -/
def text (e : LogEvent) : String :=
  "[" ++ e.level.label ++ "] " ++ e.code.text ++ " - " ++ e.message
    ++ (match e.line with
      | some n => " at line " ++ toString n
      | none => "")
    ++ (if e.details.isEmpty then ""
      else " (" ++ ", ".intercalate (e.details.map fun (k, v) => k ++ "=" ++ v) ++ ")")

/-- The whole seconds since the epoch; zero before it. -/
def seconds (e : LogEvent) : Nat :=
  e.time.toNat / 1000

/-- What a structured log says about the problem of an error. -/
def errorJson (e : LogEvent) : Json :=
  .object
    [("recoverable", .bool e.code.recoverable),
     ("requires_halt", .bool e.code.halts),
     ("description", .string e.code.description),
     ("recommended_action", .string e.code.action)]

/-- The event as a JSON object; what the event lacks is left out. -/
def toJson (e : LogEvent) : Json :=
  .object <|
    [("timestamp", Json.ofNat e.seconds),
     ("level", .string e.level.label),
     ("code", .string e.code.text),
     ("message", .string e.message),
     ("category", .string e.code.category),
     ("severity", .string e.code.severity.label)]
    ++ (if e.isError then [("error_metadata", e.errorJson)] else [])
    ++ (match e.line with
      | some n => [("line", Json.ofNat n)]
      | none => [])
    ++ (if e.details.isEmpty then []
      else [("context", .object (e.details.map fun (k, v) => (k, .string v)))])

def jsonLine (e : LogEvent) : String :=
  e.toJson.compact

end LogEvent

def passing (minimum : LogLevel) (events : List LogEvent) : List LogEvent :=
  events.filter fun e => minimum.passes e.level

/-! ## Laws -/

section Boundary

variable {text : String} {m n : Nat}

/-- The search ends where the text can be cut. -/
theorem isValid_lastBoundary (text : String) (n : Nat) :
    String.Pos.Raw.IsValid text ⟨lastBoundary text n⟩ := by
  induction n with
  | zero => exact String.Pos.Raw.isValid_zero
  | succ n ih =>
    rw [lastBoundary]
    split
    · rename_i h
      exact String.Pos.Raw.isValid_eq_true_iff.1 h
    · exact ih

theorem lastBoundary_le (text : String) (n : Nat) : lastBoundary text n ≤ n := by
  induction n with
  | zero => exact Nat.le_refl 0
  | succ n ih =>
    rw [lastBoundary]
    split
    · exact Nat.le_refl _
    · exact Nat.le_succ_of_le ih

/-- The search goes past no place where the text can be cut. -/
theorem le_lastBoundary (hm : String.Pos.Raw.IsValid text ⟨m⟩) (h : m ≤ n) :
    m ≤ lastBoundary text n := by
  induction n with
  | zero => exact h
  | succ n ih =>
    rw [lastBoundary]
    split
    · exact h
    · rename_i hnot
      refine ih (Nat.le_of_lt_succ (Nat.lt_of_le_of_ne h ?_))
      rintro rfl
      exact hnot (String.Pos.Raw.isValid_eq_true_iff.2 hm)

end Boundary

end DesignTokens
