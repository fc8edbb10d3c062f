import ManagedCode.Catalog.Basic

/-!
# Resolving references

A type is found by the name of its assembly and its own names; of several assemblies or types of one
name the first one counts, and every array type is the built-in type of arrays. A constructor is
found by its parameter types, a method by its name and, among those of one name, by its number of
parameters.
-/

namespace ManagedCode.Catalog

/-- The first assembly of a name. -/
def findAssembly? (catalog : Catalog) (name : String) : Option AssemblyId :=
  let wanted := normalizeAssemblyName name
  (catalog.assemblies.findIdx? fun a => a.name == wanted).map AssemblyId.mk

/-- The type of a reference that is to no array type. -/
def resolvePlainType (catalog : Catalog) (ref : TypeRef) : Except ResolveError TypeId :=
  match catalog.findAssembly? ref.assembly with
  | none => .error (.unknownAssembly ref.assembly)
  | some assembly =>
    let found? := (catalog.assembly assembly).types.find? fun id =>
      let type := catalog.type id
      type.name == ref.name && type.nameSpace == ref.nameSpace
    match found? with
    | some id => .ok id
    | none => .error (.unknownType ref.assembly ref.fullName)

/-- The type of a reference. -/
def resolveType (catalog : Catalog) (ref : TypeRef) : Except ResolveError TypeId :=
  catalog.resolvePlainType (if ref.isArray then TypeRef.system "Array" else ref)

/-- The first constructor of a type with the given parameter types. -/
def findConstructor? (catalog : Catalog) (type : TypeId) (parameters : List TypeRef) :
    Option MethodId :=
  (catalog.type type).constructors.find? fun id => (catalog.method id).parameters == parameters

/-- The first method of a type with the given name and number of parameters, or else the first one
with the name. -/
def findMethod? (catalog : Catalog) (type : TypeId) (name : String) (arity : Nat) :
    Option MethodId :=
  let named := (catalog.type type).methods.filter fun id => (catalog.method id).name == name
  (named.find? fun id => (catalog.method id).arity == arity).or named.head?

/-- The method or constructor of a reference. -/
def resolveMethod (catalog : Catalog) (ref : MethodRef) : Except ResolveError MethodId := do
  let type ← catalog.resolveType ref.declaringType
  let found? :=
    if ref.isConstructor then catalog.findConstructor? type ref.signature.parameters
    else catalog.findMethod? type ref.name ref.signature.parameters.length
  match found? with
  | some id => return id
  | none => throw (.unknownMember ref.declaringType.fullName ref.name)

/-- The slot of a field, found by its name alone. -/
def fieldSlot (catalog : Catalog) (type : TypeId) (name : String) : Except HeapError Nat :=
  match (catalog.type type).fields.findIdx? fun field => field.name == name with
  | some slot => .ok slot
  | none => .error (.unknownField (catalog.fullName type) name)

/-- The first static `Main` of an assembly that is not built in. -/
def entryPoint? (catalog : Catalog) : Option MethodId :=
  let assemblies := catalog.assemblies.toList.filter fun a => !a.isBuiltin
  let methods := assemblies.flatMap fun a => a.types.flatMap fun id => (catalog.type id).methods
  methods.find? fun id =>
    let method := catalog.method id
    method.isStatic && method.name == "Main"

end ManagedCode.Catalog
