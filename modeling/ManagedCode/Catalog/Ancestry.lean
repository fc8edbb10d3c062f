import ManagedCode.Catalog.Lookup

/-!
# Base types

The walk from a type through its base types, most derived first. It ends at a type whose base type
is missing, unknown or the type itself, or before a type that was already met. An overriding method
is looked for along this walk.
-/

namespace ManagedCode.Catalog

/-- The base type of a type, if it is in the catalog and another type. -/
def base? (catalog : Catalog) (type : TypeId) : Option TypeId :=
  (catalog.type type).base.bind fun ref =>
    match catalog.resolveType ref with
    | .ok base => if base = type then none else some base
    | .error _ => none

/-- The types from `type` on that are not among those already `met`, at most `rounds` of them. -/
def walk (catalog : Catalog) : (rounds : Nat) → (met : List TypeId) → TypeId → List TypeId
  | 0, _, _ => []
  | rounds + 1, met, type =>
    match catalog.base? type with
    | none => [type]
    | some base =>
      let met := type :: met
      if met.contains base then [type] else type :: catalog.walk rounds met base

/-- A type and its base types, most derived first. No walk meets more types than there are. -/
def ancestry (catalog : Catalog) (type : TypeId) : List TypeId :=
  catalog.walk (catalog.types.size + 1) [] type

/-- Whether the base types of a type lead back to a type already met. -/
def hasCyclicBase (catalog : Catalog) (type : TypeId) : Bool :=
  let chain := catalog.ancestry type
  (chain.getLast?.bind catalog.base?).any chain.contains

/-- Whether an instance of one type may stand for one of the other: the other is among its base
types, or the built-in type of all objects. -/
def isAssignable (catalog : Catalog) (source target : TypeId) : Bool :=
  (catalog.ancestry source).contains target ||
    (catalog.fullName target == "System.Object" &&
      (catalog.assembly (catalog.type target).assembly).isBuiltin)

/-- The first method of a type that is not abstract and has the name and number of parameters. -/
def implementation? (catalog : Catalog) (name : String) (arity : Nat) (type : TypeId) :
    Option MethodId :=
  (catalog.type type).methods.find? fun id =>
    let method := catalog.method id
    method.name == name && method.arity == arity && !method.isAbstract

/-- The most derived implementation of a method that is visible from a type. -/
def findOverride? (catalog : Catalog) (type : TypeId) (name : String) (arity : Nat) :
    Option MethodId :=
  (catalog.ancestry type).findSome? (catalog.implementation? name arity)

end ManagedCode.Catalog
