import ManagedCode.Files.Path

/-!
# Files

The files that a program can see, as a finite store. A path is followed through directories only;
what is wrong with it is what is met first on the way. The root, the current directory and those
above it are always there.
-/

namespace ManagedCode

/-- The files that a program can see. -/
structure Files where
  /-- The content of each file by its place. -/
  contents : List (Place × List UInt8)
  /-- The places of further directories. -/
  directories : List Place
  deriving DecidableEq, Repr

/-- What is at a place. -/
inductive Files.Entry where
  | directory
  | file (bytes : List UInt8)
  deriving DecidableEq, Repr

namespace Files

/-- The store without files. -/
def empty : Files := ⟨[], []⟩

/-- What is at a place, if anything. -/
def entry? (files : Files) (place : Place) : Option Entry :=
  if place.names.isEmpty || files.directories.contains place then some .directory
  else (files.contents.lookup place).map .file

/-- Goes from a directory into the one that a name in it leads to. -/
def enter (files : Files) (directory : Place) (name : String) : Except FileError Place := do
  let place ← directory.next name
  match files.entry? place with
  | some .directory => return place
  | some (.file _) => throw .notDirectory
  | none => throw .notFound

/-- The directory that the names in front of the last name of a path lead to. -/
def follow (files : Files) (path : Path) : Except FileError Place :=
  path.directories.foldlM files.enter path.start

/-! ## Reading -/

/-- The bytes of the file at a path. -/
def readBytes (files : Files) (text : String) : Except FileError (List UInt8) := do
  let path ← Path.ofText text
  let directory ← files.follow path
  match path.last with
  | none => throw .isDirectory
  | some name =>
    match files.entry? (← directory.next name) with
    | some .directory => throw .isDirectory
    | some (.file bytes) => if path.slashed then throw .notDirectory else return bytes
    | none => throw .notFound

/-- The text of the file at a path. -/
def readText (files : Files) (text : String) : Except FileError String := do
  let bytes ← files.readBytes text
  match String.fromUTF8? ⟨bytes.toArray⟩ with
  | some content => return content
  | none => throw .invalidText

/-! ## Writing -/

/-- Puts a file at a place. -/
def put (files : Files) (place : Place) (bytes : List UInt8) : Files :=
  { files with
    contents := (place, bytes) :: files.contents.filter fun entry => entry.1 != place }

/-- Writes a text to the file at a path, which need not exist while its directory does. A slash
behind the last name says that a directory is meant, whether there is one or not. -/
def writeText (files : Files) (text content : String) : Except FileError Files := do
  let path ← Path.ofText text
  let directory ← files.follow path
  match path.last with
  | none => throw .isDirectory
  | some name =>
    if path.slashed then throw .isDirectory
    let place ← directory.next name
    match files.entry? place with
    | some .directory => throw .isDirectory
    | _ => return files.put place content.toUTF8.toList

/-- With a file at a path, in directories that are made for it. A path that leads nowhere adds
nothing. -/
def add (files : Files) (text : String) (bytes : List UInt8) : Files :=
  match (Path.ofText text).map Path.places with
  | .error _ => files
  | .ok places =>
    match places.getLast? with
    | none => files
    | some place =>
      { files.put place bytes with directories := places.dropLast ++ files.directories }

/-- The files that are not the same in an earlier store. -/
def changedSince (files before : Files) : List (Place × List UInt8) :=
  files.contents.filter fun (place, bytes) => before.entry? place != some (.file bytes)

end Files

end ManagedCode
