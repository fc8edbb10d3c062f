import ManagedCode.Catalog.Ancestry
import ManagedCode.Image.Declaration
import ManagedCode.Machine.Basic

/-!
# Loading a module

A module becomes an assembly of the catalog: first all its types, then their fields, then their
constructors and methods, type after type. The fields of a type start with those of its base types
that the same module declares. When something is wrong with the module, what was added before stays.
-/

namespace ManagedCode

/-- Extending the catalog, which may fail half way. -/
abbrev Load := EStateM Fault Catalog

namespace Load

/-- What the module says, or the fault of what is wrong with it. -/
def declared {α : Type} : Except DecodeError α → Load α
  | .ok a => pure a
  | .error error => throw (.decode error)

/-- A type and its base types that the module declares, the type first and no type twice. -/
def lineageFrom (types : List TypeDeclaration) (assembly : String) :
    (rounds : Nat) → (met : List TypeDeclaration) → TypeDeclaration → List TypeDeclaration
  | 0, _, _ => []
  | rounds + 1, met, type =>
    let met := type :: met
    let parent? := type.base.bind fun base =>
      if base.assembly == assembly then
        types.find? fun t => t.nameSpace == base.nameSpace && t.name == base.name
      else none
    match parent? with
    | none => [type]
    | some parent =>
      if met.contains parent then [type]
      else type :: lineageFrom types assembly rounds met parent

/-- The base types of a type that the module declares, and the type itself at the end. -/
def lineage (types : List TypeDeclaration) (assembly : String) (type : TypeDeclaration) :
    List TypeDeclaration :=
  (lineageFrom types assembly (types.length + 1) [] type).reverse

/-- Adds a type. -/
def addType (assembly : AssemblyId) (type : TypeDeclaration) : Load TypeId :=
  modifyGet fun catalog => catalog.addType assembly type.nameSpace type.name type.base

/-- Adds the fields that `ancestor` declares to the type `id`. -/
def addFields (source : ModuleSource) (types : List (TypeDeclaration × TypeId)) (id : TypeId)
    (ancestor : TypeDeclaration) : Load Unit := do
  let declaring := (types.lookup ancestor).getD id
  let fields ← declared (source.fields ancestor)
  modify fun catalog =>
    fields.foldl (fun catalog f => catalog.addField id declaring f.name f.fieldType) catalog

/-- Adds a method or constructor. -/
def addMethod (id : TypeId) (kind : MethodKind) (method : MethodDeclaration) : Load Unit :=
  modify fun catalog =>
    (catalog.addMethod {
      declaringType := id
      isStatic := method.signature.isStatic
      parameters := method.signature.parameters
      body := method.body
      kind }).2

/-- Adds the constructors and methods of a type. -/
def addMembers (source : ModuleSource) (type : TypeDeclaration) (id : TypeId) : Load Unit := do
  let constructors ← declared (source.constructors type)
  constructors.forM (addMethod id .constructor)
  let methods ← declared (source.methods type)
  methods.forM fun m =>
    addMethod id (.method m.name m.signature.returnType m.isAbstract m.isVirtual) m

/-- Refuses types whose base types lead back to a type already met. -/
def refuseCycles (ids : List TypeId) : Load Unit := do
  let catalog ← get
  match ids.find? catalog.hasCyclicBase with
  | some id => throw (.resolve (.cyclicInheritance (catalog.fullName id)))
  | none => pure ()

/-- Adds a module. -/
def addModule (source : ModuleSource) : Load AssemblyId := do
  let assembly ← modifyGet fun catalog => catalog.addAssembly source.assembly false
  let ids ← source.types.mapM (addType assembly)
  refuseCycles ids
  let types := source.types.zip ids
  types.forM fun (type, id) =>
    (lineage source.types source.assembly type).forM (addFields source types id)
  types.forM fun (type, id) => addMembers source type id
  return assembly

end Load

/-- Loads a module into a machine. -/
def Machine.loadModule (source : ModuleSource) (m : Machine) :
    EStateM.Result Fault Machine AssemblyId :=
  match Load.addModule source m.catalog with
  | .ok id catalog => .ok id { m with catalog }
  | .error fault catalog => .error fault { m with catalog }

/-- Loads the module of an image into a machine. -/
def Machine.load (image : Image) (m : Machine) : EStateM.Result Fault Machine AssemblyId :=
  m.loadModule image.source

end ManagedCode
