import DesignTokens.Log.Notice
import DesignTokens.Number.Rounding
import DesignTokens.Storage.Host
import DesignTokens.Text.Blank

/-!
# The token source

The source of a run is one text file of limited size. Reading it says what it found, or why there
is nothing to read.
-/

namespace DesignTokens

/-! ## Errors -/

/-- Why a source cannot be used. -/
inductive SourceError where
  | notFound (path : String)
  | tooLarge (size limit : Nat)
  | notPermitted (path : String)
  | notText (path : String)
  | unreadable (message : String)
  | invalidPath (path : String)
deriving DecidableEq, Repr

namespace SourceError

def code : SourceError → LogCode
  | notFound _ => .sourceNotFound
  | tooLarge _ _ => .sourceTooLarge
  | notPermitted _ => .sourceNotPermitted
  | notText _ => .sourceNotText
  | unreadable _ => .sourceUnreadable
  | invalidPath _ => .sourcePathInvalid

def message : SourceError → String
  | notFound path => "File not found: " ++ path
  | tooLarge size limit =>
    "File too large: " ++ toString size ++ " bytes (max: " ++ toString limit ++ ")"
  | notPermitted path => "Permission denied: " ++ path
  | notText path => "Invalid UTF-8 encoding in file: " ++ path
  | unreadable message => "I/O error reading file: " ++ message
  | invalidPath path => "Invalid file path: " ++ path

end SourceError

/-! ## Sizes and times -/

def kilobyte : Nat := 1024

def megabyte : Nat := 1024 * kilobyte

/-- The greatest size of a source in bytes. -/
def sourceLimit : Nat := 10 * megabyte

/-- A source of more bytes than this is large. -/
def largeSource : Nat := megabyte

/-- A number of hundredths with its point. -/
def hundredthsText (n : Nat) : String :=
  toString (n / 100) ++ "." ++ String.ofList [Nat.digitChar (n / 10 % 10), Nat.digitChar (n % 10)]

/-- The units of sizes, each of 1024 of the one before it. -/
inductive SizeUnit where
  | byte
  | kilobyte
  | megabyte
  | gigabyte
deriving DecidableEq, Repr

namespace SizeUnit

def label : SizeUnit → String
  | byte => "B"
  | kilobyte => "KB"
  | megabyte => "MB"
  | gigabyte => "GB"

/-- Goes over from a unit to larger ones as long as there are 1024 of it or more. -/
def climb (x : Binary64) (unit : SizeUnit) : List SizeUnit → Binary64 × SizeUnit
  | [] => (x, unit)
  | next :: larger =>
    if 1024 * Binary64.unitsPerOne ≤ x.units then climb (x.quotient 1024) next larger
    else (x, unit)

end SizeUnit

/-- A size in bytes as a double, in the unit that it is shown in. -/
def scaledSize (size : Nat) : Binary64 × SizeUnit :=
  SizeUnit.climb (.ofNat size) .byte [.kilobyte, .megabyte, .gigabyte]

/-- A size with its unit. Bytes are whole, and larger units have two places. -/
def sizeText (size : Nat) : String :=
  let scaled := scaledSize size
  let number :=
    if scaled.2 = .byte then toString size
    else hundredthsText (roundHalfEven (100 * scaled.1.units) Binary64.unitsPerOne)
  number ++ " " ++ scaled.2.label

/-- A time in milliseconds with two places. It is taken to seconds and then to milliseconds as
doubles, so three roundings come before the last. -/
def millisecondsText (nanos : Nat) : String :=
  let one := Binary64.unitsPerOne
  let units (num den : Nat) : Nat := (Binary64.ofCode false (Binary64.nearestCode num den)).units
  let fraction := units (nanos % 1000000000) 1000000000
  let seconds := units (nanos / 1000000000 * one + fraction) one
  let milliseconds := units (seconds * 1000) one
  hundredthsText (roundHalfEven (100 * milliseconds) one)

/-- The number of lines of a text. A line feed ends a line; what stands behind the last one is a
line if it is not empty. -/
def lineCount (text : List Char) : Nat :=
  text.count '\n' + (match text.getLast? with
    | none => 0
    | some c => if c = '\n' then 0 else 1)

/-- The number of lines of a text, counted without taking the text apart. -/
def countLines (text : String) : Nat :=
  text.foldl (fun n c => if c = '\n' then n + 1 else n) 0
    + (text.foldl (fun _ c => c != '\n') false).toNat

theorem foldl_lineFeeds (s : List Char) (n : Nat) :
    s.foldl (fun n c => if c = '\n' then n + 1 else n) n = n + s.count '\n' := by
  induction s generalizing n with
  | nil => rfl
  | cons c s ih =>
    rw [List.foldl_cons, ih, List.count_cons]
    by_cases h : c = '\n'
    · simp [h]
      omega
    · simp [h]

theorem foldl_lastOpen (s : List Char) (before : Bool) :
    s.foldl (fun _ c => c != '\n') before = (s.getLast?.map (· != '\n')).getD before := by
  induction s generalizing before with
  | nil => rfl
  | cons c s ih =>
    rw [List.foldl_cons, ih, List.getLast?_cons]
    cases s.getLast? <;> rfl

theorem countLines_eq (text : String) : countLines text = lineCount text.toList := by
  rw [countLines, String.foldl_eq_foldl_toList, String.foldl_eq_foldl_toList, foldl_lineFeeds,
    foldl_lastOpen, lineCount]
  cases text.toList.getLast? with
  | none => simp
  | some c => by_cases h : c = '\n' <;> simp [h]

/-! ## Reading -/

/-- A source that has been read. -/
structure SourceFile where
  /-- Its absolute path without links. -/
  canonical : String
  size : Nat
  text : String
deriving DecidableEq, Repr

namespace SourceFile

def lines (f : SourceFile) : Nat := countLines f.text

/-- Whether the size is worth a note. -/
def isLarge (f : SourceFile) : Bool := largeSource < f.size

/-- Whether there is only white space. -/
def isBlank (f : SourceFile) : Bool := f.text.all Text.isBlank

theorem lines_eq (f : SourceFile) : f.lines = lineCount f.text.toList :=
  countLines_eq f.text

theorem isBlank_eq (f : SourceFile) : f.isBlank = Text.isAllBlank f.text.toList :=
  String.all_bool_eq

end SourceFile

/-- What comes of reading a source, and what there is to say about it. -/
structure Reading where
  result : Except SourceError SourceFile
  notices : List Notice

namespace Reading

/-- A source that cannot be used. -/
def refused (before : List Notice) (e : SourceError) (message : String)
    (details : List (String × String)) : Reading :=
  ⟨.error e, before ++ [.error e.code message details]⟩

/-- A file whose text could not be read. -/
def faulty (before : List Notice) (path canonical : String) (fault : ReadFault) : Reading :=
  let e := match fault with
    | .notText => .notText canonical
    | .refused .notPermitted => .notPermitted canonical
    | .refused e =>
      SourceError.unreadable ("Failed to read file '" ++ canonical ++ "': " ++ e.message)
  refused before e "Failed to read token source" [("file", path), ("io_error", fault.message)]

/-- A file that has been read in some nanoseconds. -/
def done (before : List Notice) (path : String) (f : SourceFile) (nanos : Nat) : Reading :=
  ⟨.ok f, before
    ++ [.success .sourceRead "Token source read successfully"
      [("file", path), ("size_human", sizeText f.size), ("lines", toString f.lines),
        ("duration_ms", millisecondsText nanos)]]
    ++ (if f.isBlank then [.debug "Token source is empty" [("file", path)]] else [])⟩

end Reading

/-- Reads the source at a path. -/
def Host.readSource {m : Type → Type} [Monad m] (host : Host m) (path : String) : m Reading := do
  let start ← host.clock
  let first : List Notice := [.debug "Starting source read" [("file", path)]]
  if path = "" then
    return .refused first (.invalidPath path) "Empty source path provided" []
  match ← host.examine path with
  | .absent => return .refused first (.notFound path) "Token source not found" [("path", path)]
  | .noFile =>
    return .refused first (.invalidPath path) "Source path is not a file" [("path", path)]
  | .file canonical size =>
    let before := first ++ [.debug "Source metadata collected"
      [("size_bytes", toString size), ("is_large_file", toString (decide (largeSource < size)))]]
    if sourceLimit < size then
      return .refused before (.tooLarge size sourceLimit)
        "Token source exceeds compile-time maximum size"
        [("file", path), ("size_bytes", toString size), ("limit_bytes", toString sourceLimit)]
    match ← host.readText canonical with
    | .error fault => return .faulty before path canonical fault
    | .ok text =>
      let stop ← host.clock
      return .done before path ⟨canonical, size, text⟩ (stop - start)

end DesignTokens
