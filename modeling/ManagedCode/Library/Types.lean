import ManagedCode.Library.Native

/-!
# The built-in types

The core assembly: its types with their fields and members, and a new machine that has it loaded. A
member has no body; what it does is found by the full name of its type, its own name and its number
of parameters.
-/

namespace ManagedCode.Library

/-- A member of a built-in type. -/
structure Member where
  /-- The name; constructors share one. -/
  name : String
  /-- The calling shape. -/
  signature : Signature
  /-- What it does. -/
  native : Native
  deriving DecidableEq, Repr

/-- A built-in type. -/
structure TypeEntry where
  /-- The namespace. -/
  nameSpace : String
  /-- The name. -/
  name : String
  /-- The fields with their types. -/
  fields : List (String × TypeRef) := []
  /-- The members. -/
  members : List Member := []
  deriving DecidableEq, Repr

/-- A static member. -/
def staticMember (name : String) (parameters : List TypeRef) (result : TypeRef) (native : Native) :
    Member :=
  ⟨name, ⟨true, parameters, result⟩, native⟩

/-- A member of instances. -/
def instanceMember (name : String) (parameters : List TypeRef) (result : TypeRef)
    (native : Native) : Member :=
  ⟨name, ⟨false, parameters, result⟩, native⟩

/-- A constructor. -/
def constructorMember (parameters : List TypeRef) (native : Native) : Member :=
  instanceMember MethodRef.constructorName parameters .void native

/-- The array type of an element type. -/
def arrayOf (type : TypeRef) : TypeRef := { type with name := type.name ++ "[]" }

/-- The namespace of collections. -/
def collections : String := "System.Collections.Generic"

/-- The type of all objects. -/
def object : TypeRef := .system "Object"

/-- The type of strings. -/
def string : TypeRef := .system "String"

/-- The type of 32-bit integers. -/
def int32 : TypeRef := .system "Int32"

/-- The type of truth values. -/
def bool : TypeRef := .system "Boolean"

/-- The type of characters. -/
def char : TypeRef := .system "Char"

/-- The type parameter of a generic type. -/
def item : TypeRef := ⟨coreAssembly, "", "!0"⟩

/-- The type of lists. -/
def list : TypeRef := ⟨coreAssembly, collections, "List`1"⟩

/-- The type of everything that can be walked through. -/
def sequence : TypeRef := ⟨coreAssembly, collections, "IEnumerable`1"⟩

/-- The members of strings. -/
def stringMembers : List Member := [
  staticMember "Concat" [string, string] string .stringConcat,
  staticMember "Concat" [string, string, string] string .stringConcat,
  staticMember "Format" [string, object] string .stringFormat,
  staticMember "Join" [string, arrayOf string] string .stringJoin,
  instanceMember "Split" [arrayOf char] (arrayOf string) .stringSplit,
  instanceMember "Split" [] (arrayOf string) .stringSplit,
  instanceMember "get_Length" [] int32 .stringLength,
  staticMember "op_Equality" [string, string] bool .stringEquality]

/-- The members of lists. -/
def listMembers : List Member := [
  constructorMember [] .listConstruct,
  constructorMember [int32] .listConstruct,
  instanceMember "Add" [item] .void .listAdd,
  instanceMember "AddRange" [sequence] .void .listAddRange,
  instanceMember "get_Count" [] int32 .listCount,
  instanceMember "get_Item" [int32] item .listGetItem,
  instanceMember "set_Item" [int32, item] .void .listSetItem,
  instanceMember "GetRange" [int32, int32] list .listGetRange,
  instanceMember "IndexOf" [item] int32 .listIndexOf,
  instanceMember "Contains" [item] bool .listContains,
  instanceMember "Insert" [int32, item] .void .listInsert,
  instanceMember "RemoveAt" [int32] .void .listRemoveAt,
  instanceMember "RemoveRange" [int32, int32] .void .listRemoveRange,
  instanceMember "Clear" [] .void .listClear]

/-- The built-in types in order. -/
def types : List TypeEntry := [
  { nameSpace := "System"
    name := "Object"
    members := [
      constructorMember [] .objectConstruct,
      instanceMember "ToString" [] string .objectToString,
      instanceMember "Equals" [object] bool .objectEquals] },
  { nameSpace := "System", name := "Void" },
  { nameSpace := "System", name := "Boolean" },
  { nameSpace := "System", name := "Char" },
  { nameSpace := "System", name := "Int64" },
  { nameSpace := "System", name := "Double" },
  { nameSpace := "System", name := "ValueType" },
  { nameSpace := "System"
    name := "String"
    fields := [("Value", string)]
    members := stringMembers },
  { nameSpace := "System"
    name := "Int32"
    members := [staticMember "Parse" [string] int32 .int32Parse] },
  { nameSpace := "System", name := "Array", fields := [("Values", object), ("Length", int32)] },
  { nameSpace := collections
    name := "List`1"
    fields := [("Values", object)]
    members := listMembers },
  { nameSpace := "System.IO"
    name := "File"
    members := [
      staticMember "ReadAllLines" [string] (arrayOf string) .fileReadAllLines,
      staticMember "WriteAllText" [string, string] .void .fileWriteAllText] },
  { nameSpace := "System"
    name := "Console"
    members := [
      staticMember "WriteLine" [] .void .consoleWriteLine,
      staticMember "WriteLine" [object] .void .consoleWriteLine,
      staticMember "Write" [object] .void .consoleWrite] },
  { nameSpace := "System"
    name := "Environment"
    members := [staticMember "get_NewLine" [] string .environmentNewLine] }]

/-- `Namespace.Name` of a built-in type. -/
def TypeEntry.fullName (type : TypeEntry) : String := type.nameSpace ++ "." ++ type.name

/-- What the member of a type with a name and a number of parameters does. -/
def native? (typeName member : String) (arity : Nat) : Option Native := do
  let type ← types.find? fun type => type.fullName == typeName
  let found ← type.members.find? fun m =>
    m.name == member && m.signature.parameters.length == arity
  return found.native

/-- A member as a method of the catalog. Two members of every object may be overridden. -/
def Member.toMethod (declaring : TypeId) (member : Member) : Method where
  declaringType := declaring
  isStatic := member.signature.isStatic
  parameters := member.signature.parameters
  body := .empty
  kind :=
    if member.name == MethodRef.constructorName then .constructor
    else
      .method member.name member.signature.returnType false
        (member.name == "ToString" || member.name == "Equals")

/-- Adds a built-in type with its fields and members. Every type but that of all objects derives
from it. -/
def addType (assembly : AssemblyId) (catalog : Catalog) (entry : TypeEntry) : Catalog :=
  let base := if entry.fullName == "System.Object" then none else some object
  let (id, catalog) := catalog.addType assembly entry.nameSpace entry.name base
  let catalog := entry.fields.foldl
    (fun catalog (name, type) => catalog.addField id id name (some type)) catalog
  entry.members.foldl (fun catalog member => (catalog.addMethod (member.toMethod id)).2) catalog

/-- The catalog with the core assembly. -/
def catalog : Catalog :=
  let (assembly, catalog) := Catalog.empty.addAssembly coreAssembly true
  types.foldl (addType assembly) catalog

/-- The number of a built-in type, which is its place among them. -/
def typeId (ref : TypeRef) : TypeId :=
  ⟨types.findIdx fun entry => entry.nameSpace == ref.nameSpace && entry.name == ref.name⟩

/-- The types of which the machine itself makes objects. -/
def coreTypes : CoreTypes := ⟨typeId string, typeId (.system "Array"), typeId list⟩

end ManagedCode.Library

/-- A machine with the core assembly loaded. -/
def ManagedCode.Machine.new (options : Options) (files : Files) : Machine where
  catalog := Library.catalog
  heap := .empty options.heapCapacity
  calls := .empty options.maxCallDepth
  statics := .empty
  core := Library.coreTypes
  options
  output := ""
  files
