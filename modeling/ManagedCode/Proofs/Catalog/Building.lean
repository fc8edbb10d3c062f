import ManagedCode.Proofs.Catalog.Ancestry

/-!
# Building a catalog

Assemblies, types, fields and methods are added one after another, each to something that was added
before. However a catalog was built, every type belongs to an assembly, and an assembly lists
exactly the types that belong to it, in the order in which they were added.
-/

namespace ManagedCode.Catalog

/-- The catalogs that adding one thing after another makes. -/
inductive Built : Catalog → Prop
  | empty : Built .empty
  | addAssembly {catalog : Catalog} (h : Built catalog) (name : String) (isBuiltin : Bool) :
      Built (catalog.addAssembly name isBuiltin).2
  | addType {catalog : Catalog} (h : Built catalog) {assembly : AssemblyId}
      (ha : assembly.index < catalog.assemblies.size) (nameSpace name : String)
      (base : Option TypeRef) : Built (catalog.addType assembly nameSpace name base).2
  | addField {catalog : Catalog} (h : Built catalog) {type : TypeId}
      (ht : type.index < catalog.types.size) (declaring : TypeId) (name : String)
      (fieldType : Option TypeRef) : Built (catalog.addField type declaring name fieldType)
  | addMethod {catalog : Catalog} (h : Built catalog) {method : Method}
      (ht : method.declaringType.index < catalog.types.size) : Built (catalog.addMethod method).2

/-- Every type belongs to an assembly, and an assembly lists the types that belong to it. -/
structure Indexed (catalog : Catalog) : Prop where
  owner : ∀ id : TypeId, id.index < catalog.types.size →
    (catalog.type id).assembly.index < catalog.assemblies.size
  listed : ∀ assembly, (catalog.assembly assembly).types =
    catalog.allTypes.filter fun id => (catalog.type id).assembly = assembly

section Adding

variable {catalog : Catalog}

/-- An empty catalog has nothing to list. -/
theorem indexed_empty : Indexed .empty where
  owner _ h := absurd h (Nat.not_lt_zero _)
  listed _ := rfl

/-- A new assembly lists no types, as none belong to it. -/
theorem Indexed.addAssembly (h : catalog.Indexed) (name : String) (isBuiltin : Bool) :
    (catalog.addAssembly name isBuiltin).2.Indexed where
  owner id hid := by
    have hlt := h.owner id hid
    simp only [Catalog.addAssembly, Array.size_push]
    exact Nat.lt_succ_of_lt hlt
  listed assembly := by
    have hsame : ((catalog.addAssembly name isBuiltin).2.assembly assembly).types =
        (catalog.assembly assembly).types := by
      simp only [Catalog.assembly, Catalog.addAssembly, Array.getD_eq_getD_getElem?,
        Array.getElem?_push]
      split
      · rename_i heq
        simp [heq, default, instInhabitedAssembly.default]
      · rfl
    exact hsame.trans (h.listed assembly)

/-- A type that is added is numbered behind the others. -/
theorem allTypes_addType (assembly : AssemblyId) (nameSpace name : String)
    (base : Option TypeRef) : (catalog.addType assembly nameSpace name base).2.allTypes =
      catalog.allTypes ++ [⟨catalog.types.size⟩] := by
  simp [allTypes, Catalog.addType, List.range_succ]

/-- The types that were there are as they were. -/
theorem type_addType_of_lt {assembly : AssemblyId} {nameSpace name : String}
    {base : Option TypeRef} {id : TypeId} (h : id.index < catalog.types.size) :
    (catalog.addType assembly nameSpace name base).2.type id = catalog.type id := by
  simp only [Catalog.type, Catalog.addType, Array.getD_eq_getD_getElem?, Array.getElem?_push,
    if_neg (Nat.ne_of_lt h)]

/-- The number that is given out next is that of the type that is added. -/
theorem type_addType_new {assembly : AssemblyId} {nameSpace name : String}
    {base : Option TypeRef} :
    (catalog.addType assembly nameSpace name base).2.type ⟨catalog.types.size⟩ =
      ⟨nameSpace, name, assembly, base, [], [], []⟩ := by
  simp [Catalog.type, Catalog.addType]

/-- A new type is the last one of its assembly. -/
theorem Indexed.addType (h : catalog.Indexed) {assembly : AssemblyId}
    (ha : assembly.index < catalog.assemblies.size) (nameSpace name : String)
    (base : Option TypeRef) : (catalog.addType assembly nameSpace name base).2.Indexed where
  owner id hid := by
    have hsize : (catalog.addType assembly nameSpace name base).2.assemblies.size =
        catalog.assemblies.size := Array.size_modify
    rw [hsize]
    rcases Nat.lt_succ_iff_lt_or_eq.mp (by simpa [Catalog.addType] using hid) with hlt | heq
    · rw [type_addType_of_lt hlt]
      exact h.owner id hlt
    · obtain rfl : id = ⟨catalog.types.size⟩ := congrArg TypeId.mk heq
      rwa [type_addType_new]
  listed other := by
    have hold : catalog.allTypes.filter (fun id =>
        ((catalog.addType assembly nameSpace name base).2.type id).assembly = other) =
          (catalog.assembly other).types := by
      rw [h.listed]
      refine List.filter_congr fun id hm => ?_
      rw [type_addType_of_lt (mem_allTypes.mp hm)]
    rw [allTypes_addType, List.filter_append, hold, List.filter_singleton, type_addType_new]
    simp only [Catalog.assembly, Catalog.addType, Array.getD_eq_getD_getElem?,
      Array.getElem?_modify]
    by_cases heq : assembly = other
    · subst heq
      simp [Array.getElem?_eq_getElem ha]
    · have hne : assembly.index ≠ other.index := fun hi => heq (congrArg AssemblyId.mk hi)
      simp [heq, hne]

/-- A type may be changed as long as it belongs to the same assembly. -/
theorem Indexed.modifyType (h : catalog.Indexed) (changed : TypeId)
    {f : TypeDefinition → TypeDefinition} (hf : ∀ t, (f t).assembly = t.assembly) :
    Indexed { catalog with types := catalog.types.modify changed.index f } := by
  have hsame (id : TypeId) :
      (Catalog.type { catalog with types := catalog.types.modify changed.index f } id).assembly =
        (catalog.type id).assembly := by
    simp only [Catalog.type, Array.getD_eq_getD_getElem?, Array.getElem?_modify]
    split
    · cases catalog.types[id.index]? with
      | none => rfl
      | some t => exact hf t
    · rfl
  constructor
  · intro id hid
    rw [hsame]
    exact h.owner id (by simpa only [Array.size_modify] using hid)
  · intro assembly
    simp only [hsame, allTypes, Array.size_modify]
    exact h.listed assembly

/-- A method belongs to a type, and changes nothing about the types of an assembly. -/
theorem Indexed.addMethod (h : catalog.Indexed) (method : Method) :
    (catalog.addMethod method).2.Indexed := by
  have hadded := h.modifyType method.declaringType
    (f := fun t =>
      if method.isConstructor then
        { t with constructors := t.constructors ++ [⟨catalog.methods.size⟩] }
      else { t with methods := t.methods ++ [⟨catalog.methods.size⟩] })
    fun t => by split <;> rfl
  exact ⟨hadded.owner, hadded.listed⟩

/-- However a catalog was built, its assemblies list their types. -/
theorem Built.indexed (h : catalog.Built) : catalog.Indexed := by
  induction h with
  | empty => exact indexed_empty
  | addAssembly _ name isBuiltin ih => exact ih.addAssembly name isBuiltin
  | addType _ ha nameSpace name base ih => exact ih.addType ha nameSpace name base
  | @addField catalog _ type _ declaring name fieldType ih => exact ih.modifyType type fun _ => rfl
  | @addMethod _ _ method _ ih => exact ih.addMethod method

end Adding

end ManagedCode.Catalog
