import ManagedCode.Instruction.Basic

/-!
# The catalog

Every loaded assembly, type and method. They refer to one another by number, which is the order in
which they were added. Adding never changes a number that was given out.
-/

namespace ManagedCode

/-- The number of an assembly. -/
structure AssemblyId where
  index : Nat
  deriving DecidableEq, Repr, Inhabited

/-- The number of a type. -/
structure TypeId where
  index : Nat
  deriving DecidableEq, Repr, Inhabited

/-- The number of a method or constructor. -/
structure MethodId where
  index : Nat
  deriving DecidableEq, Repr, Inhabited

/-- An assembly with its types. -/
structure Assembly where
  /-- The name without a file extension. -/
  name : String
  /-- Whether the assembly is built in. -/
  isBuiltin : Bool
  /-- The types in the order they were added. -/
  types : List TypeId
  deriving DecidableEq, Repr, Inhabited

/-- A field of a type, which is one slot of each of its instances. -/
structure Field where
  /-- The name. -/
  name : String
  /-- The type that declares the field, which may be a base type. -/
  declaringType : TypeId
  /-- The type of the field, where it is known. -/
  fieldType : Option TypeRef
  deriving DecidableEq, Repr, Inhabited

/-- A type. The order of its fields is the order of the slots of its instances. -/
structure TypeDefinition where
  /-- The namespace, empty for a type outside any. -/
  nameSpace : String
  /-- The name. -/
  name : String
  /-- The assembly of the type. -/
  assembly : AssemblyId
  /-- The base type by name. -/
  base : Option TypeRef
  /-- The fields, those of base types included. -/
  fields : List Field
  /-- The constructors. -/
  constructors : List MethodId
  /-- The methods. -/
  methods : List MethodId
  deriving DecidableEq, Repr, Inhabited

/-- What distinguishes a method from a constructor. -/
inductive MethodKind where
  /-- A constructor. -/
  | constructor
  /-- A method with a name and a return type; a derived type has to override an abstract one and may
  override a virtual one. -/
  | method (name : String) (returnType : TypeRef) (isAbstract isVirtual : Bool)
  deriving DecidableEq, Repr, Inhabited

/-- A method or constructor. -/
structure Method where
  /-- The type that declares it. -/
  declaringType : TypeId
  /-- Whether it takes no receiver. -/
  isStatic : Bool
  /-- The parameter types, without the receiver. -/
  parameters : List TypeRef
  /-- The instructions; without any the behaviour is native. -/
  body : Body
  /-- What it is. -/
  kind : MethodKind
  deriving DecidableEq, Repr, Inhabited

namespace Method

/-- The name; constructors share one. -/
def name (method : Method) : String :=
  match method.kind with
  | .constructor => MethodRef.constructorName
  | .method name _ _ _ => name

/-- Whether it is a constructor. -/
def isConstructor (method : Method) : Bool := method.kind matches .constructor

/-- Whether a derived type has to supply the behaviour. -/
def isAbstract (method : Method) : Bool := method.kind matches .method _ _ true _

/-- Whether a derived type may supply another behaviour. -/
def isOverridable (method : Method) : Bool :=
  method.kind matches .method _ _ true _ | .method _ _ _ true

/-- Whether a call leaves a value. -/
def returnsValue (method : Method) : Bool :=
  match method.kind with
  | .constructor => false
  | .method _ returnType _ _ => !returnType.isVoid

/-- Whether the behaviour is native. -/
def isNative (method : Method) : Bool := method.body.isEmpty

/-- The number of parameters, without the receiver. -/
def arity (method : Method) : Nat := method.parameters.length

/-- The number of values that a call takes, the receiver included. -/
def argumentCount (method : Method) : Nat := method.arity + if method.isStatic then 0 else 1

end Method

/-- Every loaded assembly, type and method. -/
structure Catalog where
  /-- The assemblies by number. -/
  assemblies : Array Assembly
  /-- The types by number. -/
  types : Array TypeDefinition
  /-- The methods and constructors by number. -/
  methods : Array Method
  deriving DecidableEq, Repr

namespace Catalog

/-- The catalog without assemblies. -/
def empty : Catalog := ⟨#[], #[], #[]⟩

instance : Inhabited Catalog := ⟨empty⟩

/-! ## Looking numbers up -/

/-- The assembly of a number. -/
def assembly (catalog : Catalog) (id : AssemblyId) : Assembly :=
  catalog.assemblies.getD id.index default

/-- The type of a number. -/
def type (catalog : Catalog) (id : TypeId) : TypeDefinition := catalog.types.getD id.index default

/-- The method of a number. -/
def method (catalog : Catalog) (id : MethodId) : Method := catalog.methods.getD id.index default

/-- A reference to a type of the catalog. -/
def typeRef (catalog : Catalog) (id : TypeId) : TypeRef :=
  let type := catalog.type id
  TypeRef.ofNames (catalog.assembly type.assembly).name type.nameSpace type.name

/-- `Namespace.Name` of a type. -/
def fullName (catalog : Catalog) (id : TypeId) : String := (catalog.typeRef id).fullName

/-- `Namespace.Type::Method` of a method. -/
def methodName (catalog : Catalog) (id : MethodId) : String :=
  let method := catalog.method id
  catalog.fullName method.declaringType ++ "::" ++ method.name

/-! ## Adding -/

/-- Adds an assembly without types. -/
def addAssembly (catalog : Catalog) (name : String) (isBuiltin : Bool) : AssemblyId × Catalog :=
  (⟨catalog.assemblies.size⟩,
    { catalog with
      assemblies := catalog.assemblies.push ⟨normalizeAssemblyName name, isBuiltin, []⟩ })

/-- Adds a type without members to an assembly. -/
def addType (catalog : Catalog) (assembly : AssemblyId) (nameSpace name : String)
    (base : Option TypeRef) : TypeId × Catalog :=
  let id : TypeId := ⟨catalog.types.size⟩
  (id,
    { catalog with
      types := catalog.types.push ⟨nameSpace, name, assembly, base, [], [], []⟩
      assemblies := catalog.assemblies.modify assembly.index fun a =>
        { a with types := a.types ++ [id] } })

/-- Adds a field that `declaring`, the type itself or one of its base types, declares. -/
def addField (catalog : Catalog) (type declaring : TypeId) (name : String)
    (fieldType : Option TypeRef) : Catalog :=
  { catalog with
    types := catalog.types.modify type.index fun t =>
      { t with fields := t.fields ++ [⟨name, declaring, fieldType⟩] } }

/-- Adds a method or constructor to its declaring type. -/
def addMethod (catalog : Catalog) (method : Method) : MethodId × Catalog :=
  let id : MethodId := ⟨catalog.methods.size⟩
  (id,
    { catalog with
      methods := catalog.methods.push method
      types := catalog.types.modify method.declaringType.index fun t =>
        if method.isConstructor then { t with constructors := t.constructors ++ [id] }
        else { t with methods := t.methods ++ [id] } })

end Catalog

end ManagedCode
