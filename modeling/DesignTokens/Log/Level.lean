/-!
# Log levels

Four levels, from the most to the least urgent. A minimum level lets through itself and all that
is more urgent.
-/

namespace DesignTokens

/-- How urgent an event is. -/
inductive LogLevel where
  | error
  | warning
  | info
  | debug
deriving DecidableEq, Repr

namespace LogLevel

/-- The place in the order of urgency, the most urgent first. -/
def rank : LogLevel → Nat
  | error => 0
  | warning => 1
  | info => 2
  | debug => 3

/-- The word that log lines carry. -/
def label : LogLevel → String
  | error => "ERROR"
  | warning => "WARN"
  | info => "INFO"
  | debug => "DEBUG"

/-- The word that configuration files carry. -/
def name : LogLevel → String
  | error => "error"
  | warning => "warning"
  | info => "info"
  | debug => "debug"

/-- Whether events of a level pass a minimum. -/
def passes (minimum level : LogLevel) : Bool :=
  level.rank ≤ minimum.rank

/-- Whether events of a level go to the error stream. -/
def isComplaint : LogLevel → Bool
  | error | warning => true
  | info | debug => false

/-- The level that a configuration file names. -/
def ofName? (s : String) : Option LogLevel :=
  if s = "error" then some error
  else if s = "warning" then some warning
  else if s = "info" then some info
  else if s = "debug" then some debug
  else none

/-- The level that an option or an environment variable names: a name in any case, the short form
`warn`, or the rank as a digit. -/
def read? (s : String) : Option LogLevel :=
  let lower := String.ofList (s.toList.map Char.toLower)
  if lower = "error" ∨ lower = "0" then some error
  else if lower = "warning" ∨ lower = "warn" ∨ lower = "1" then some warning
  else if lower = "info" ∨ lower = "2" then some info
  else if lower = "debug" ∨ lower = "3" then some debug
  else none

theorem passes_self (l : LogLevel) : l.passes l = true := by
  cases l <;> rfl

theorem ofName?_name (l : LogLevel) : ofName? l.name = some l := by
  cases l <;> rfl

theorem read?_name (l : LogLevel) : read? l.name = some l := by
  cases l <;> rfl

end LogLevel

end DesignTokens
