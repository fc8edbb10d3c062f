import ManagedCode.Fault

/-!
# Type references

Code names a type by the assembly it belongs to, its namespace and its name. The written form is
`[Assembly]Namespace.Name`, behind which any number of `[]` make it an array type, or one of a few
short words such as `int32`. Without a bracketed assembly the name belongs to the assembly of the
text, and only then the short words have their meaning.
-/

namespace ManagedCode

/-- The name of the assembly that holds the built-in types. -/
def coreAssembly : String := "mscorlib"

/-- The text without a file extension `.dll` or `.exe`, in any case. -/
def dropExtension (cs : List Char) : List Char :=
  let stem := cs.length - 4
  let ending := (cs.drop stem).map Char.toLower
  if ending = ".dll".toList ∨ ending = ".exe".toList then cs.take stem else cs

/-- The name of an assembly without blanks around it and without a file extension, so that a file
name and the bare name mean the same assembly. -/
def normalizeAssemblyName (name : String) : String :=
  String.ofList (dropExtension (Text.trim name.toList))

/-- A type by its names. -/
structure TypeRef where
  /-- The assembly, without a file extension. -/
  assembly : String
  /-- The namespace, empty for a type outside any. -/
  nameSpace : String
  /-- The name, with a suffix `[]` for each array dimension. -/
  name : String
  deriving DecidableEq, Repr, Inhabited

namespace TypeRef

/-- A reference with the assembly name brought into its normal form. -/
def ofNames (assembly nameSpace name : String) : TypeRef :=
  ⟨normalizeAssemblyName assembly, nameSpace, name⟩

/-- A type of the namespace `System` of the core assembly. -/
def system (name : String) : TypeRef := ⟨coreAssembly, "System", name⟩

/-- The type of methods that return nothing. -/
def void : TypeRef := system "Void"

/-- Whether the reference is to the type of methods that return nothing. -/
def isVoid (ref : TypeRef) : Bool := ref == void

/-- The two characters that mark an array type. -/
def arraySuffix : List Char := ['[', ']']

/-- The name of the element type, if the name is that of an array type. -/
def elementName? (name : String) : Option String :=
  (Text.dropFront? arraySuffix.reverse name.toList.reverse).map fun rest =>
    String.ofList rest.reverse

/-- Whether the reference is to an array type. -/
def isArray (ref : TypeRef) : Bool := (elementName? ref.name).isSome

/-- The element type of an array type. -/
def element? (ref : TypeRef) : Option TypeRef :=
  (elementName? ref.name).map fun name => { ref with name }

/-- `Namespace.Name`, or the name alone outside any namespace. -/
def fullName (ref : TypeRef) : String :=
  if ref.nameSpace.isEmpty then ref.name else ref.nameSpace ++ "." ++ ref.name

/-- The short words and the names in `System` they stand for. -/
def aliases : List (String × String) :=
  [("void", "Void"), ("bool", "Boolean"), ("char", "Char"), ("int8", "SByte"), ("uint8", "Byte"),
    ("int16", "Int16"), ("uint16", "UInt16"), ("int32", "Int32"), ("uint32", "UInt32"),
    ("int64", "Int64"), ("uint64", "UInt64"), ("float32", "Single"), ("float64", "Double"),
    ("string", "String"), ("object", "Object")]

/-- The assembly in brackets at the front of a text, if any, and what follows it. The text is none
of a type if the brackets are empty or not closed. -/
def splitAssembly? : List Char → Option (Option (List Char) × List Char)
  | '[' :: cs =>
    match Text.splitFirst? (· == ']') cs with
    | some ([], _) | none => none
    | some (assembly, rest) => some (some assembly, rest)
  | cs => some (none, cs)

/-- Whether a character may stand in the dotted name of a type. -/
def isNameChar (c : Char) : Bool := !(Text.isBlank c || c == '[' || c == ']')

/-- Whether a text is a sequence of array marks. -/
def isArrayMarks : List Char → Bool
  | [] => true
  | '[' :: ']' :: cs => isArrayMarks cs
  | _ => false

/-- The reference for a dotted name without array marks. -/
def ofPath (assembly? : Option (List Char)) (path : List Char) (home : String) : TypeRef :=
  match assembly?, aliases.lookup (String.ofList path) with
  | none, some name => system name
  | assembly?, _ =>
    let assembly := (assembly?.map String.ofList).getD home
    match Text.splitLast? (· == '.') path with
    | some (front, name) => ofNames assembly (String.ofList front) (String.ofList name)
    | none => ofNames assembly "" (String.ofList path)

/-- Reads the text of a type. A name without an assembly belongs to the assembly `home`. -/
def parse (home : String) (text : String) : Except ResolveError TypeRef :=
  let parsed? := do
    let (assembly?, rest) ← splitAssembly? (Text.trim text.toList)
    let (path, marks) := rest.span isNameChar
    if path.isEmpty || !isArrayMarks marks then none
    else
      let ref := ofPath assembly? path home
      some { ref with name := ref.name ++ String.ofList marks }
  match parsed? with
  | some ref => .ok ref
  | none => .error (.malformedSignature text)

end TypeRef

end ManagedCode
