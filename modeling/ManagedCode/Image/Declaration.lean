import ManagedCode.Image.Basic

/-!
# Declarations of a module

What a module declares, with every text read and every body decoded: its types with their base
types, and for a type its fields, constructors and methods. Several types of one name share the
members of the first of them. A module need not be stored as an image: anything that answers the
same questions can be loaded.
-/

namespace ManagedCode

/-- A declared type. A base type whose text is malformed is left out. -/
structure TypeDeclaration where
  /-- The namespace, empty for a type outside any. -/
  nameSpace : String
  /-- The name. -/
  name : String
  /-- The base type. -/
  base : Option TypeRef
  deriving DecidableEq, Repr

/-- A declared field. -/
structure FieldDeclaration where
  /-- The name. -/
  name : String
  /-- The type, where it is given. -/
  fieldType : Option TypeRef
  deriving DecidableEq, Repr

/-- A declared method or constructor with its decoded body. -/
structure MethodDeclaration where
  /-- The name. -/
  name : String
  /-- The calling shape. -/
  signature : Signature
  /-- Whether a derived type has to supply the behaviour. -/
  isAbstract : Bool
  /-- Whether a derived type may supply another behaviour. -/
  isVirtual : Bool
  /-- The instructions. -/
  body : Body
  deriving DecidableEq, Repr

/-- Where a module comes from: what it declares, or for each member list what is wrong with it. -/
structure ModuleSource where
  /-- The assembly that the types belong to. -/
  assembly : String
  /-- The declared types. -/
  types : List TypeDeclaration
  /-- The fields that a type declares itself, in order. -/
  fields : TypeDeclaration → Except DecodeError (List FieldDeclaration)
  /-- The constructors of a type, in order. -/
  constructors : TypeDeclaration → Except DecodeError (List MethodDeclaration)
  /-- The methods of a type, in order. -/
  methods : TypeDeclaration → Except DecodeError (List MethodDeclaration)

namespace Image

/-- The declared types. -/
def declaredTypes (image : Image) : List TypeDeclaration :=
  image.types.map fun type =>
    { nameSpace := type.nameSpace
      name := type.name
      base := type.base.bind fun text => (TypeRef.parse image.assembly text).toOption }

/-- The first type definition of the names of a declared type. -/
def definition? (image : Image) (type : TypeDeclaration) : Option TypeImage :=
  image.types.find? fun t => t.nameSpace == type.nameSpace && t.name == type.name

/-- Reads the text of a field: its type and name with a blank between them, or its name alone. -/
def readField (home : String) (text : String) : Except ResolveError FieldDeclaration :=
  let trimmed := Text.trim text.toList
  match Text.splitLast? Text.isBlank trimmed with
  | some (type, name) => do
    let fieldType ← TypeRef.parse home (String.ofList type)
    return ⟨String.ofList name, some fieldType⟩
  | none => .ok ⟨String.ofList trimmed, none⟩

/-- The fields that a type declares itself, in order. -/
def declaredFields (image : Image) (type : TypeDeclaration) :
    Except DecodeError (List FieldDeclaration) :=
  match image.definition? type with
  | none => .ok []
  | some definition =>
    (definition.fields.mapM (readField image.assembly)).mapError DecodeError.resolve

/-- A method with its signature read and its body decoded. -/
def declareMethod (image : Image) (method : MethodImage) :
    Except DecodeError MethodDeclaration := do
  let signature ← (Signature.parse image.assembly method.signature).mapError DecodeError.resolve
  let body ← Body.decode image.resolver .strict method.code
  return {
    name := method.name
    signature
    isAbstract := method.isAbstract
    isVirtual := method.isVirtual
    body }

/-- The constructors of a type, in order. -/
def declaredConstructors (image : Image) (type : TypeDeclaration) :
    Except DecodeError (List MethodDeclaration) :=
  match image.definition? type with
  | none => .ok []
  | some definition => definition.constructors.mapM image.declareMethod

/-- The methods of a type, in order. -/
def declaredMethods (image : Image) (type : TypeDeclaration) :
    Except DecodeError (List MethodDeclaration) :=
  match image.definition? type with
  | none => .ok []
  | some definition => definition.methods.mapM image.declareMethod

/-- What the image declares. -/
def source (image : Image) : ModuleSource where
  assembly := image.assembly
  types := image.declaredTypes
  fields := image.declaredFields
  constructors := image.declaredConstructors
  methods := image.declaredMethods

end Image

end ManagedCode
