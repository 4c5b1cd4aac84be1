import DesignTokens.Time.Instant

/-!
# What a run needs of its host

A run looks at its source, makes directories, writes documents, and asks for the time. Everything
else it does is a function of what it got. The operations are given as a record, so that a run can
work on a real machine as well as on a value that stands for one.
-/

namespace DesignTokens

/-- Why the host refuses an operation on a path. -/
inductive HostError where
  | notFound
  | notPermitted
  | exists
  | notDirectory
  | isDirectory
  | nameTooLong
  | tooManyLinks
  /-- The path holds the character that ends a path for the system. -/
  | holdsNull
  | other (message : String)
deriving DecidableEq, Repr

/-- The text of a refusal. -/
def HostError.message : HostError → String
  | notFound => "No such file or directory (os error 2)"
  | notPermitted => "Permission denied (os error 13)"
  | .exists => "File exists (os error 17)"
  | notDirectory => "Not a directory (os error 20)"
  | isDirectory => "Is a directory (os error 21)"
  | nameTooLong => "File name too long (os error 36)"
  | tooManyLinks => "Too many levels of symbolic links (os error 40)"
  | holdsNull => "file name contained an unexpected NUL byte"
  | other message => message

/-- Why a text cannot be read. -/
inductive ReadFault where
  /-- The bytes are no UTF-8 text. -/
  | notText
  | refused (e : HostError)
deriving DecidableEq, Repr

def ReadFault.message : ReadFault → String
  | notText => "stream did not contain valid UTF-8"
  | refused e => e.message

inductive Examined where
  | absent
  /-- Something that is not a file. -/
  | noFile
  /-- A file, with its absolute path without links and its size in bytes. -/
  | file (canonical : String) (size : Nat)
deriving DecidableEq, Repr

/-- The operations of a host. -/
structure Host (m : Type → Type) where
  examine : String → m Examined
  readText : String → m (Except ReadFault String)
  /-- Makes a directory and those on the way to it, as far as they are missing. -/
  makeDirectories : String → m (Except HostError Unit)
  /-- Replaces the whole file, or makes it. -/
  writeText : String → String → m (Except HostError Unit)
  now : m Instant
  /-- Nanoseconds on a clock that only goes forward. -/
  clock : m Nat

end DesignTokens
