/-!
# Instants

An instant is a number of seconds since the epoch and of nanoseconds within the second. A leap
second is written as a 59th second with more than a billion nanoseconds. Instants are shown in the
proleptic Gregorian calendar with whole seconds.
-/

namespace DesignTokens

/-- A point in time. -/
structure Instant where
  /-- Seconds since the epoch, without leap seconds; negative before it. -/
  seconds : Int
  /-- Nanoseconds; a billion and more of them lie in a leap second. -/
  nanos : Nat
deriving DecidableEq, Repr

namespace Instant

/-- The first second of the calendar, in the year -262143. -/
def firstSecond : Int := -8334601228800

/-- The last second of the calendar, in the year 262142. -/
def lastSecond : Int := 8210266876799

/-- The instant of some seconds and nanoseconds, if the calendar has it. A leap second can only
follow the last second of a minute. -/
def ofParts? (seconds : Int) (nanos : Nat) : Option Instant :=
  if seconds < firstSecond ∨ lastSecond < seconds then none
  else if 2000000000 ≤ nanos then none
  else if 1000000000 ≤ nanos ∧ seconds % 60 ≠ 59 then none
  else some ⟨seconds, nanos⟩

/-- The day of an instant, counted from the epoch. -/
def day (t : Instant) : Int := t.seconds / 86400

def secondOfDay (t : Instant) : Nat := (t.seconds % 86400).toNat

/-- The whole milliseconds since the epoch. -/
def milliseconds (t : Instant) : Int := t.seconds * 1000 + t.nanos / 1000000

/-- Whether an instant lies in a leap second. -/
def isLeap (t : Instant) : Bool := 1000000000 ≤ t.nanos

/-- Year, month and day of a day counted from the epoch. Years are taken to begin in March, so that
the leap day is the last of its year, and are counted in eras of four hundred. -/
def civil (day : Int) : Int × Nat × Nat :=
  let shifted := day + 719468
  let era := shifted / 146097
  let dayOfEra := (shifted % 146097).toNat
  let yearOfEra := (dayOfEra - dayOfEra / 1460 + dayOfEra / 36524 - dayOfEra / 146096) / 365
  let dayOfYear := dayOfEra - (365 * yearOfEra + yearOfEra / 4 - yearOfEra / 100)
  let march := (5 * dayOfYear + 2) / 153
  let dayOfMonth := dayOfYear - (153 * march + 2) / 5 + 1
  let month := if march < 10 then march + 3 else march - 9
  let year : Int := yearOfEra + era * 400
  (if month ≤ 2 then year + 1 else year, month, dayOfMonth)

/-- A number with zeros in front up to a width. -/
def padded (width n : Nat) : String :=
  let digits := Nat.toDigits 10 n
  String.ofList (List.replicate (width - digits.length) '0' ++ digits)

/-- A year with at least four digits, and a sign unless it has exactly four and is not negative. -/
def yearText (year : Int) : String :=
  if year < 0 then "-" ++ padded 4 year.natAbs
  else if 9999 < year then "+" ++ padded 4 year.natAbs
  else padded 4 year.natAbs

/-- Date and time of day in universal time, in whole seconds. -/
def text (t : Instant) : String :=
  let (year, month, dayOfMonth) := civil t.day
  let s := t.secondOfDay
  yearText year ++ "-" ++ padded 2 month ++ "-" ++ padded 2 dayOfMonth ++ "T"
    ++ padded 2 (s / 3600) ++ ":" ++ padded 2 (s / 60 % 60) ++ ":"
    ++ padded 2 (s % 60 + if t.isLeap then 1 else 0) ++ "Z"

end Instant

end DesignTokens
