import ManagedCode.Fault
import ManagedCode.Text.Blank

/-!
# Paths

A path is a text of names with slashes between them. It leads from the root or from the current
directory, name by name, to a place in the tree of directories, where a single dot stays where it is
and two dots lead to the directory around it. The root lies in itself.
-/

namespace ManagedCode

/-- A directory that is always there. -/
inductive Origin where
  | root
  /-- The directory so many levels above the current one. -/
  | above (levels : Nat)
  deriving DecidableEq, Repr

/-- A place in the tree of directories. -/
structure Place where
  /-- The directory from which the place is named. -/
  origin : Origin
  /-- The names that lead to the place, the last one first. -/
  names : List String
  deriving DecidableEq, Repr

namespace Place

/-- The greatest number of bytes of a name. -/
def maxNameSize : Nat := 255

/-- The directory around a place. -/
def parent : Place → Place
  | ⟨origin, _ :: names⟩ => ⟨origin, names⟩
  | ⟨.root, []⟩ => ⟨.root, []⟩
  | ⟨.above levels, []⟩ => ⟨.above (levels + 1), []⟩

/-- The place that a name in a directory leads to. -/
def next (directory : Place) (name : String) : Except FileError Place :=
  if name = "." then .ok directory
  else if name = ".." then .ok directory.parent
  else if maxNameSize < name.utf8ByteSize then .error .nameTooLong
  else .ok ⟨directory.origin, name :: directory.names⟩

/-- Whether a place lies in the current directory. -/
def isLocal (place : Place) : Bool := place.origin = .above 0

/-- A path that leads to the place. -/
def text (place : Place) : String :=
  match place.origin with
  | .root => "/" ++ "/".intercalate place.names.reverse
  | .above 0 => "/".intercalate (if place.names.isEmpty then ["."] else place.names.reverse)
  | .above levels => "/".intercalate (List.replicate levels ".." ++ place.names.reverse)

end Place

/-- A path in its parts. -/
structure Path where
  /-- Where the path starts. -/
  start : Place
  /-- The names in front of the last one. -/
  directories : List String
  /-- The last name; a path of slashes has none. -/
  last : Option String
  /-- Whether a slash follows the last name. -/
  slashed : Bool
  deriving DecidableEq, Repr

namespace Path

/-- The number of bytes that a path has to stay below. -/
def sizeLimit : Nat := 4096

/-- The parts of a path. One with a zero character is refused before its length is looked at. -/
def ofText (text : String) : Except FileError Path :=
  let cs := text.toList
  if cs.contains '\x00' then .error .zeroInPath
  else if cs.isEmpty then .error .notFound
  else if sizeLimit ≤ text.utf8ByteSize then .error .nameTooLong
  else
    let names := ((Text.splitAll (· == '/') cs).filter (!·.isEmpty)).map String.ofList
    .ok {
      start := ⟨if cs.head? = some '/' then .root else .above 0, []⟩
      directories := names.dropLast
      last := names.getLast?
      slashed := cs.getLast? = some '/' }

/-- The places that a path leads through, as far as its names are not too long. -/
def places (path : Path) : List Place :=
  let names := path.directories ++ path.last.toList
  (List.range (names.length + 1)).filterMap fun count =>
    ((names.take count).foldlM Place.next path.start).toOption

end Path

end ManagedCode
