import ManagedCode.Catalog.Ancestry

/-!
# Catalogs that differ in the instructions of methods

A reference is resolved, an override found and a name shown by what a catalog says about its types
and by the declarations of methods, never by their instructions. So catalogs that agree in all else
give the same answers.
-/

namespace ManagedCode

/-- The methods are declared alike. -/
structure Method.SameDeclaration (a b : Method) : Prop where
  declaringType : a.declaringType = b.declaringType
  isStatic : a.isStatic = b.isStatic
  parameters : a.parameters = b.parameters
  kind : a.kind = b.kind

namespace Method.SameDeclaration

variable {a b : Method} (h : a.SameDeclaration b)

include h

/-- Methods that are alike have the same name. -/
theorem name : a.name = b.name := by rw [Method.name, Method.name, h.kind]

/-- Of methods that are alike, both are abstract or neither is. -/
theorem isAbstract : a.isAbstract = b.isAbstract := by
  rw [Method.isAbstract, Method.isAbstract, h.kind]

/-- Of methods that are alike, both are constructors or neither is. -/
theorem isConstructor : a.isConstructor = b.isConstructor := by
  rw [Method.isConstructor, Method.isConstructor, h.kind]

/-- Of methods that are alike, both may be overridden or neither may. -/
theorem isOverridable : a.isOverridable = b.isOverridable := by
  rw [Method.isOverridable, Method.isOverridable, h.kind]

/-- Of methods that are alike, both return a value or neither does. -/
theorem returnsValue : a.returnsValue = b.returnsValue := by
  rw [Method.returnsValue, Method.returnsValue, h.kind]

/-- Methods that are alike have equally many parameters. -/
theorem arity : a.arity = b.arity := by rw [Method.arity, Method.arity, h.parameters]

/-- Methods that are alike take equally many values, the receiver included. -/
theorem argumentCount : a.argumentCount = b.argumentCount := by
  rw [Method.argumentCount, Method.argumentCount, h.arity, h.isStatic]

end Method.SameDeclaration

/-- The catalogs are equal except for the instructions of their methods. -/
structure Catalog.Agrees (c c' : Catalog) : Prop where
  assemblies : c.assemblies = c'.assemblies
  types : c.types = c'.types
  method : ∀ id, (c.method id).SameDeclaration (c'.method id)

namespace Catalog.Agrees

/-- A catalog agrees with itself. -/
theorem refl (c : Catalog) : c.Agrees c := ⟨rfl, rfl, fun _ => ⟨rfl, rfl, rfl, rfl⟩⟩

variable {c c' : Catalog}

/-- Equal catalogs agree. -/
theorem of_eq (h : c = c') : c.Agrees c' := h ▸ refl c

variable (h : c.Agrees c')

include h

/-- Catalogs that agree have the same types under the same numbers. -/
theorem type : c.type = c'.type := by
  funext id
  rw [Catalog.type, Catalog.type, h.types]

/-- Catalogs that agree have the same assemblies under the same numbers. -/
theorem assembly : c.assembly = c'.assembly := by
  funext id
  rw [Catalog.assembly, Catalog.assembly, h.assemblies]

/-- Catalogs that agree have the same full names of types. -/
theorem fullName : c.fullName = c'.fullName := by
  funext id
  simp only [Catalog.fullName, typeRef, h.type, h.assembly]

/-- Catalogs that agree have the same names of methods. -/
theorem methodName : c.methodName = c'.methodName := by
  funext id
  simp only [Catalog.methodName, h.fullName, (h.method id).declaringType, (h.method id).name]

/-- In catalogs that agree a reference leads to the same type, or fails alike. -/
theorem resolveType : c.resolveType = c'.resolveType := by
  funext ref
  simp only [Catalog.resolveType, resolvePlainType, findAssembly?, h.assemblies, h.assembly, h.type]

/-- In catalogs that agree a reference leads to the same method, or fails alike. -/
theorem resolveMethod : c.resolveMethod = c'.resolveMethod := by
  funext ref
  simp only [Catalog.resolveMethod, findConstructor?, findMethod?, h.resolveType, h.type,
    (h.method _).parameters, (h.method _).name, (h.method _).arity]

/-- In catalogs that agree a field has the same slot. -/
theorem fieldSlot : c.fieldSlot = c'.fieldSlot := by
  funext type name
  simp only [Catalog.fieldSlot, h.type, h.fullName]

/-- In catalogs that agree programs start at the same method. -/
theorem entryPoint? : c.entryPoint? = c'.entryPoint? := by
  simp only [Catalog.entryPoint?, h.assemblies, h.type, (h.method _).isStatic, (h.method _).name]

/-- In catalogs that agree a type has the same base type. -/
theorem base? : c.base? = c'.base? := by
  funext type
  simp only [Catalog.base?, h.type, h.resolveType]

/-- In catalogs that agree walks along base types pass the same types. -/
theorem walk : c.walk = c'.walk := by
  funext rounds
  induction rounds with
  | zero => rfl
  | succ rounds ih =>
    funext met type
    simp only [Catalog.walk, h.base?, ih]

/-- In catalogs that agree a type has the same ancestry. -/
theorem ancestry : c.ancestry = c'.ancestry := by
  funext type
  simp only [Catalog.ancestry, h.walk, h.types]

/-- In catalogs that agree the same types come back to themselves. -/
theorem hasCyclicBase : c.hasCyclicBase = c'.hasCyclicBase := by
  funext type
  simp only [Catalog.hasCyclicBase, h.ancestry, h.base?]

/-- In catalogs that agree the same types can be assigned to each other. -/
theorem isAssignable : c.isAssignable = c'.isAssignable := by
  funext source target
  simp only [Catalog.isAssignable, h.ancestry, h.fullName, h.assembly, h.type]

/-- In catalogs that agree the same method overrides another one. -/
theorem findOverride? : c.findOverride? = c'.findOverride? := by
  have himplementation : c.implementation? = c'.implementation? := by
    funext name arity type
    simp only [implementation?, h.type, (h.method _).name, (h.method _).arity,
      (h.method _).isAbstract]
  funext type name arity
  rw [Catalog.findOverride?, Catalog.findOverride?, h.ancestry, himplementation]

end Catalog.Agrees

end ManagedCode
