import DesignTokens.CommandLine.Command
import Std.Time.DateTime.Timestamp

/-!
# The program

The operations of a host on the real machine, and the command on top of them.
-/

namespace DesignTokens.Machine

/-- The number that the system gives for an error. -/
def systemCode? : IO.Error → Option UInt32
  | .noFileOrDirectory _ code _ | .inappropriateType _ code _ | .noSuchThing _ code _
  | .permissionDenied _ code _ | .alreadyExists _ code _ | .illegalOperation code _
  | .invalidArgument _ code _ | .otherError code _ => some code
  | _ => none

def refusal (e : IO.Error) : HostError :=
  match systemCode? e with
  | some 2 => .notFound
  | some 13 => .notPermitted
  | some 17 => .exists
  | some 20 => .notDirectory
  | some 21 => .isDirectory
  | some 36 => .nameTooLong
  | some 40 => .tooManyLinks
  | _ => .other (toString e)

/-- The result of an action, or why it is refused. -/
def attempt {α : Type} (action : IO α) : IO (Except HostError α) := do
  try
    return .ok (← action)
  catch e =>
    return .error (refusal e)

def readText (path : String) : IO (Except ReadFault String) := do
  match ← attempt (IO.FS.readBinFile path) with
  | .error e => return .error (.refused e)
  | .ok bytes => match String.fromUTF8? bytes with
    | some text => return .ok text
    | none => return .error .notText

def examine (path : String) : IO Examined := do
  match ← attempt (IO.FS.realPath path) with
  | .error _ => return .absent
  | .ok real => match ← attempt real.metadata with
    | .error _ => return .absent
    | .ok data =>
      if data.type == .file then return .file real.toString data.byteSize.toNat
      else return .noFile

/-- Makes a directory and those on the way to it. -/
def makeDirectories (path : String) : IO (Except HostError Unit) := do
  match ← attempt (IO.FS.createDir path) with
  | .ok () => return .ok ()
  | .error .notFound => attempt (IO.FS.createDirAll path)
  | .error e =>
    if (← examine path) = .noFile then return .ok ()
    else return .error e

/-- The current time. -/
def now : IO Instant := do
  let nanos := (← Std.Time.Timestamp.now).toNanosecondsSinceUnixEpoch.val
  return ⟨nanos / 1000000000, (nanos % 1000000000).toNat⟩

/-- The machine as a host. -/
def host : Host IO where
  examine := examine
  readText := readText
  makeDirectories := makeDirectories
  writeText path text := attempt (IO.FS.writeFile path text)
  now := now
  clock := IO.monoNanosNow

/-- The variables of the environment that settings are taken from. -/
def environment : IO Environment := do
  let pairs ← Environment.variableNames.mapM fun name => do
    return (← IO.getEnv name).map fun value => (name, value)
  return .ofList (pairs.filterMap id)

end DesignTokens.Machine

open DesignTokens in
/-- Runs the command on the machine. -/
def main (words : List String) : IO UInt32 := do
  let r ← CommandLine.command Machine.host (← Machine.environment) words
  IO.print r.output
  IO.eprint r.complaints
  return r.exitCode.toUInt32
