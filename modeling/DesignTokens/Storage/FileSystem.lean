import DesignTokens.Storage.Walk

/-!
# File systems

A value that stands for the files below a working directory. Links are followed wherever a path is
looked up. What lies outside the working directory does not exist, and what is made there is lost.
-/

namespace DesignTokens

/-- The files below a working directory. -/
structure FileSystem where
  /-- The absolute path of the working directory. -/
  base : String
  /-- What the working directory holds. -/
  top : Listing

namespace FileSystem

/-! ## Places -/

/-- Puts something at a place whose directory is there. -/
def put (fs : FileSystem) (place : List String) (n : Node) : FileSystem :=
  { fs with top := fs.top.put place n }

/-- Takes away a place and all that is below it. -/
def erase (fs : FileSystem) (place : List String) : FileSystem :=
  { fs with top := fs.top.erase place }

def look (fs : FileSystem) (place : List String) : Option Kind :=
  fs.top.look place

/-- All places below the working directory, each with what there is. -/
def places (fs : FileSystem) : List (List String × Kind) :=
  fs.top.places

/-- The absolute path of a place. -/
def canonical (fs : FileSystem) (place : List String) : String :=
  fs.base ++ String.join (place.map ("/" ++ ·))

/-! ## Paths -/

/-- A path as seen from the working directory. All that is known of the root is that it lies outside
of that. -/
def relative (fs : FileSystem) (path : String) : String :=
  if path = fs.base then "."
  else if (fs.base ++ "/").toList.isPrefixOf path.toList then
    String.ofList (path.toList.drop (fs.base.toList.length + 1))
  else if Path.isAbsolute path then ".." ++ path
  else path

/-- A path as seen from the working directory, unless the system takes no such path. -/
def accept (fs : FileSystem) (path : String) : Except HostError String :=
  if path.toList.contains '\x00' then .error .holdsNull
  else if Path.pathBytes < path.utf8ByteSize then .error .nameTooLong
  else if fs.relative path = "" then .error .notFound
  else .ok (fs.relative path)

/-- Where steps from the working directory lead. -/
def walk (fs : FileSystem) (making : Bool) (steps : List String) : Except HostError Arrival :=
  DesignTokens.walk making linkLimit (.start fs.top) steps

/-- Where a path leads. -/
def resolve (fs : FileSystem) (making : Bool) (path : String) : Except HostError Arrival := do
  fs.walk making (Path.steps (← fs.accept path))

/-- The directory that holds the last of some names, and that name. -/
def parentOf (fs : FileSystem) (names : List String) : Except HostError (Spot × String) :=
  match names.getLast? with
  | none => .error .notFound
  | some last =>
    match fs.walk false names.dropLast with
    | .ok (.directory s) => .ok (s, last)
    | .ok (.file ..) => .error .notDirectory
    | .ok (.vacant ..) => .error .notFound
    | .error e => .error e

/-! ## Reading -/

def examine (fs : FileSystem) (path : String) : Examined :=
  match fs.resolve false path with
  | .ok (.file s name c) => .file (fs.canonical (s.placeOf name)) c.size
  | .ok (.directory _) => .noFile
  | .ok (.vacant ..) | .error _ => .absent

def read (fs : FileSystem) (path : String) : Except HostError FileContents :=
  match fs.resolve false path with
  | .ok (.file _ _ c) => .ok c
  | .ok (.directory _) => .error .isDirectory
  | .ok (.vacant ..) => .error .notFound
  | .error e => .error e

def readText (fs : FileSystem) (path : String) : Except ReadFault String :=
  match fs.read path with
  | .ok (.text s) => .ok s
  | .ok (.binary _) => .error .notText
  | .error e => .error (.refused e)

/-! ## Writing -/

def writePlace (fs : FileSystem) (path : String) : Except HostError (List String) :=
  match fs.resolve true path with
  | .ok (.file s name _) | .ok (.vacant s name) => .ok (s.placeOf name)
  | .ok (.directory _) => .error .isDirectory
  | .error e => .error e

/-- Replaces the file at a path, or makes it. -/
def write (fs : FileSystem) (path : String) (c : FileContents) : Except HostError FileSystem :=
  match fs.writePlace path with
  | .ok place => .ok (fs.put place (.file c))
  | .error e => .error e

/-- Makes one directory; nothing may be there yet, not even a link. -/
def makeDirectory (fs : FileSystem) (names : List String) : Except HostError FileSystem :=
  match fs.parentOf names with
  | .error e => .error e
  | .ok (s, last) =>
    if last = "." ∨ last = ".." then .error .exists
    else if Path.nameBytes < last.utf8ByteSize then .error .nameTooLong
    else if (s.here.get? last).isSome then .error .exists
    else .ok (fs.put (s.placeOf last) (.directory []))

def isDirectory (fs : FileSystem) (names : List String) : Bool :=
  match fs.walk false names with
  | .ok (.directory _) => true
  | _ => false

/-- Makes a directory, or finds it there. -/
def ensureDirectory (fs : FileSystem) (names : List String) :
    Except HostError Unit × FileSystem :=
  match fs.makeDirectory names with
  | .ok fs => (.ok (), fs)
  | .error e => if fs.isDirectory names then (.ok (), fs) else (.error e, fs)

/-- Makes the directory that some names in reverse lead to, and first those on the way that are
missing. What has been made stays, even if the rest is refused. -/
def makeWay (fs : FileSystem) : List String → Except HostError Unit × FileSystem
  | [] => (.ok (), fs)
  | last :: before =>
    let names := (last :: before).reverse
    match fs.makeDirectory names with
    | .error .notFound =>
      match fs.makeWay before with
      | (.ok (), fs) => fs.ensureDirectory names
      | (.error e, fs) => (.error e, fs)
    | _ => fs.ensureDirectory names

/-- The names of a path without its dots; only one at the start is kept. -/
def plainNames (names : List String) : List String :=
  match names with
  | "." :: rest => "." :: rest.filter (· ≠ ".")
  | names => names.filter (· ≠ ".")

/-- Makes the directory at a path, and those on the way that are missing. There is nothing to do
for the empty path. -/
def makeDirectories (fs : FileSystem) (path : String) : Except HostError Unit × FileSystem :=
  if path = "" then (.ok (), fs)
  else match fs.accept path with
    | .error e => (.error e, fs)
    | .ok inner =>
      let names := Path.names inner
      if names = [] then (.ok (), fs)
      else match fs.makeDirectory names with
        | .error .notFound =>
          match fs.makeWay (plainNames names).dropLast.reverse with
          | (.ok (), fs) => fs.ensureDirectory names
          | (.error e, fs) => (.error e, fs)
        | _ => fs.ensureDirectory names

/-- The place of a path whose last name is not followed if it is a link. -/
def ownPlace (fs : FileSystem) (path : String) : Except HostError (List String × Option Node) := do
  let (s, last) ← fs.parentOf (Path.names (← fs.accept path))
  return (s.placeOf last, s.here.get? last)

/-- Puts a link at a path, if nothing is there. -/
def makeLink (fs : FileSystem) (target path : String) : Except HostError FileSystem := do
  match ← fs.ownPlace path with
  | (_, some _) => .error .exists
  | (place, none) => return fs.put place (.link target)

/-- Takes away what is at a path; a link goes and what it leads to stays. -/
def remove (fs : FileSystem) (path : String) : Except HostError FileSystem := do
  match ← fs.ownPlace path with
  | (_, none) => .error .notFound
  | (place, some _) => return fs.erase place

/-! ## As a host -/

/-- A host whose files are those of a file system and whose clock stands still. -/
def host (now : Instant) : Host (StateM FileSystem) where
  examine path := fun fs => (fs.examine path, fs)
  readText path := fun fs => (fs.readText path, fs)
  makeDirectories path := fun fs => fs.makeDirectories path
  writeText path text := fun fs =>
    match fs.write path (.text text) with
    | .ok fs' => (.ok (), fs')
    | .error e => (.error e, fs)
  now := pure now
  clock := pure 0

end FileSystem

end DesignTokens
