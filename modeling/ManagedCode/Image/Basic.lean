import ManagedCode.Instruction.Decoding
import ManagedCode.Token.Map

/-!
# Module images

A module as it is stored: type definitions with the bytes of their method bodies, and the tables of
strings and members that the tokens in those bytes refer to. Types and signatures are kept as text.
-/

namespace ManagedCode

/-- A member that code refers to by token. -/
inductive MemberImage where
  /-- A field by declaring type and name, with its own type where it is known. -/
  | field (declaringType name : String) (fieldType : Option String)
  /-- A method or constructor by declaring type, name and signature. -/
  | method (declaringType name signature : String)
  /-- A type. -/
  | type (name : String)
  deriving DecidableEq, Repr

/-- A method or constructor with its code. -/
structure MethodImage where
  /-- The name. -/
  name : String
  /-- The text of the signature. -/
  signature : String
  /-- Whether a derived type has to supply the behaviour. -/
  isAbstract : Bool
  /-- Whether a derived type may supply another behaviour. -/
  isVirtual : Bool
  /-- The bytes of the body; a method without any is native. -/
  code : List UInt8
  deriving DecidableEq, Repr

/-- A type definition. -/
structure TypeImage where
  /-- The namespace, empty for a type outside any. -/
  nameSpace : String
  /-- The name. -/
  name : String
  /-- The text of the base type. -/
  base : Option String
  /-- The declared fields, each as its type and name or as its name alone. -/
  fields : List String
  /-- The constructors. -/
  constructors : List MethodImage
  /-- The methods. -/
  methods : List MethodImage
  deriving DecidableEq, Repr

/-- A module. -/
structure Image where
  /-- The name, with or without a file extension. -/
  name : String
  /-- The type definitions. -/
  types : List TypeImage
  /-- The strings that code refers to. -/
  strings : TokenMap String
  /-- The members that code refers to. -/
  members : TokenMap MemberImage
  deriving DecidableEq

/-- `Namespace.Name`, or the name alone outside any namespace. -/
def TypeImage.fullName (type : TypeImage) : String :=
  if type.nameSpace.isEmpty then type.name else type.nameSpace ++ "." ++ type.name

namespace Image

/-- The assembly that the types of the module belong to. -/
def assembly (image : Image) : String := normalizeAssemblyName image.name

/-- The member of a token. -/
def member (image : Image) (token : Token) : Except ResolveError MemberImage :=
  match image.members.get? token with
  | some member => .ok member
  | none => .error (.unknownToken token)

/-- The text of a string token. -/
def resolveString (image : Image) (token : Token) : Except ResolveError String :=
  match image.strings.get? token with
  | some text => .ok text
  | none => .error (.unknownToken token)

/-- The field of a token. -/
def resolveField (image : Image) (token : Token) : Except ResolveError FieldRef := do
  match ← image.member token with
  | .field declaringType name fieldType =>
    return {
      declaringType := ← TypeRef.parse image.assembly declaringType
      name
      fieldType := ← fieldType.mapM (TypeRef.parse image.assembly) }
  | _ => throw (.wrongTokenKind token .field)

/-- The method or constructor of a token. -/
def resolveMember (image : Image) (token : Token) : Except ResolveError MethodRef := do
  match ← image.member token with
  | .method declaringType name signature =>
    return {
      declaringType := ← TypeRef.parse image.assembly declaringType
      name
      signature := ← Signature.parse image.assembly signature }
  | _ => throw (.wrongTokenKind token .method)

/-- The method of a token, which is no constructor. -/
def resolveMethod (image : Image) (token : Token) : Except ResolveError MethodRef := do
  let ref ← image.resolveMember token
  if ref.isConstructor then throw (.wrongTokenKind token .method)
  return ref

/-- The type of a token. -/
def resolveType (image : Image) (token : Token) : Except ResolveError TypeRef := do
  match ← image.member token with
  | .type name => TypeRef.parse image.assembly name
  | _ => throw (.wrongTokenKind token .type)

/-- What the tokens in the code of the module stand for. -/
def resolver (image : Image) : Resolver where
  string := image.resolveString
  field := image.resolveField
  method := image.resolveMethod
  member := image.resolveMember
  type := image.resolveType

/-- The block of one method in the listing of the module. -/
def methodListing (image : Image) (type : TypeImage) (method : MethodImage) :
    Except DecodeError String := do
  let head := ".method " ++ type.fullName ++ "::" ++ method.name ++ " " ++ method.signature
  let body ← disassemble image.resolver method.code
  return if body.isEmpty then head else head ++ "\n" ++ body

/-- The listing of every constructor and method, with a blank line between two blocks. -/
def listing (image : Image) : Except DecodeError String := do
  let blocks ← image.types.mapM fun type =>
    (type.constructors ++ type.methods).mapM (image.methodListing type)
  return "\n\n".intercalate blocks.flatten

end Image

end ManagedCode
