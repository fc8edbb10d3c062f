import ManagedCode.Reference.Signature

/-!
# Member references

Code names a field by its declaring type and name, and a method also by its signature.
-/

namespace ManagedCode

/-- A field by its declaring type and name. -/
structure FieldRef where
  /-- The type that declares the field. -/
  declaringType : TypeRef
  /-- The name of the field. -/
  name : String
  /-- The type of the field, where it is known. -/
  fieldType : Option TypeRef
  deriving DecidableEq, Repr, Inhabited

/-- The written form `Type::name`. -/
def FieldRef.text (ref : FieldRef) : String := ref.declaringType.fullName ++ "::" ++ ref.name

/-- A method or constructor by its declaring type, name and signature. -/
structure MethodRef where
  /-- The type that declares the method. -/
  declaringType : TypeRef
  /-- The name of the method; a constructor has a name of its own. -/
  name : String
  /-- The calling shape. -/
  signature : Signature
  deriving DecidableEq, Repr, Inhabited

namespace MethodRef

/-- The name of an instance constructor. -/
def constructorName : String := ".ctor"

/-- The name of a type initializer. -/
def initializerName : String := ".cctor"

/-- Whether the reference is to a constructor or type initializer. -/
def isConstructor (ref : MethodRef) : Bool :=
  ref.name == constructorName || ref.name == initializerName

/-- The written form `instance Return Type::name()`. -/
def text (ref : MethodRef) : String :=
  (if ref.signature.isStatic then "" else "instance ") ++ ref.signature.returnType.fullName ++
    " " ++ ref.declaringType.fullName ++ "::" ++ ref.name ++ "()"

end MethodRef

end ManagedCode
