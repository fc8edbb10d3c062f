import Mathlib.Data.List.Basic
import Mathlib.Tactic.ByContra
import ManagedCode.Machine.Loading
import ManagedCode.Proofs.Execution.Composition

/-!
# Loading only adds

A catalog extends another one if every assembly, type and method of the other one is in it under its
number and as it was, members included, and every new method is declared by a new type. A load first
announces the module, that is, adds its assembly and all its types without members; nothing can go
wrong before that is done. From then on it only adds members to the announced types. So loading
extends the catalog, whether it succeeds or fails half way, and what adding members keeps is true
after every load of a module if it is true once the module is announced.
-/

namespace ManagedCode

/-! ## Arrays that grow -/

section Arrays

variable {α : Type} {base more : Array α}

/-- An array that keeps every entry of another one is at least as long. -/
theorem size_le_of_getElem? (h : ∀ (i : Nat) a, base[i]? = some a → more[i]? = some a) :
    base.size ≤ more.size := by
  by_contra hlt
  have hi : more.size < base.size := Nat.lt_of_not_le hlt
  have hmore := h more.size base[more.size] (Array.getElem?_eq_getElem hi)
  simp at hmore

/-- What an array has at a place is read off every array that keeps its entries. -/
theorem getD_eq_of_getElem? (h : ∀ (i : Nat) a, base[i]? = some a → more[i]? = some a) {i : Nat}
    (hi : i < base.size) (fallback : α) : more.getD i fallback = base.getD i fallback := by
  have hbase := Array.getElem?_eq_getElem hi
  rw [Array.getD_eq_getD_getElem?, Array.getD_eq_getD_getElem?, h i _ hbase, hbase]

/-- Pushing keeps every entry. -/
theorem getElem?_push_of_getElem? {i : Nat} {a : α} (h : base[i]? = some a) (b : α) :
    (base.push b)[i]? = some a := by
  obtain ⟨hlt, _⟩ := Array.getElem?_eq_some_iff.mp h
  rw [Array.getElem?_push, if_neg (Nat.ne_of_lt hlt), h]

/-- Changing a place twice is changing it once. -/
theorem modify_modify (xs : Array α) (i : Nat) (f g : α → α) :
    (xs.modify i f).modify i g = xs.modify i (g ∘ f) := by
  apply Array.ext_getElem?
  intro j
  simp only [Array.getElem?_modify]
  split
  · rw [Option.map_map]
  · rfl

end Arrays

/-- A type without its members. -/
def TypeDefinition.header (type : TypeDefinition) : TypeDefinition :=
  { type with fields := [], constructors := [], methods := [] }

/-- A declared type of an assembly, without its members. -/
def TypeDeclaration.header (assembly : AssemblyId) (type : TypeDeclaration) : TypeDefinition :=
  ⟨type.nameSpace, type.name, assembly, type.base, [], [], []⟩

namespace Catalog

/-- What the first catalog has is in the second one unchanged, and new methods belong to new types.
-/
structure Extends (base catalog : Catalog) : Prop where
  assemblies : ∀ (i : Nat) a, base.assemblies[i]? = some a → catalog.assemblies[i]? = some a
  types : ∀ (i : Nat) t, base.types[i]? = some t → catalog.types[i]? = some t
  methods : ∀ (i : Nat) m, base.methods[i]? = some m → catalog.methods[i]? = some m
  declared : ∀ (i : Nat) m, catalog.methods[i]? = some m → base.methods.size ≤ i →
    base.types.size ≤ m.declaringType.index ∧ m.declaringType.index < catalog.types.size

/-- A catalog extends itself. -/
@[refl] theorem Extends.refl (catalog : Catalog) : catalog.Extends catalog where
  assemblies _ _ h := h
  types _ _ h := h
  methods _ _ h := h
  declared := by
    intro i m h hi
    obtain ⟨hlt, _⟩ := Array.getElem?_eq_some_iff.mp h
    omega

/-- Types are only added. -/
theorem Extends.size_types {base catalog : Catalog} (h : base.Extends catalog) :
    base.types.size ≤ catalog.types.size :=
  size_le_of_getElem? h.types

/-- What extends an extension extends the first catalog. -/
theorem Extends.trans {a b c : Catalog} (hab : a.Extends b) (hbc : b.Extends c) : a.Extends c where
  assemblies i x h := hbc.assemblies i x (hab.assemblies i x h)
  types i t h := hbc.types i t (hab.types i t h)
  methods i m h := hbc.methods i m (hab.methods i m h)
  declared := by
    intro i m h hi
    have hsize := hab.size_types
    have hsize' := hbc.size_types
    by_cases hlt : i < b.methods.size
    · have hold := Array.getElem?_eq_getElem hlt
      have hsame := (hbc.methods i _ hold).symm.trans h
      have hdeclared := hab.declared i m (hold.trans hsame) hi
      omega
    · have hdeclared := hbc.declared i m h (Nat.le_of_not_lt hlt)
      omega

/-- A known type is as it was. -/
theorem Extends.type_eq {base catalog : Catalog} (h : base.Extends catalog) {id : TypeId}
    (hi : id.index < base.types.size) : catalog.type id = base.type id :=
  getD_eq_of_getElem? h.types hi _

/-- A known method is as it was. -/
theorem Extends.method_eq {base catalog : Catalog} (h : base.Extends catalog) {id : MethodId}
    (hi : id.index < base.methods.size) : catalog.method id = base.method id :=
  getD_eq_of_getElem? h.methods hi _

/-- The assembly of a known type is as it was. -/
theorem Extends.assembly_eq {base catalog : Catalog} (h : base.Extends catalog) {id : AssemblyId}
    (hi : id.index < base.assemblies.size) : catalog.assembly id = base.assembly id :=
  getD_eq_of_getElem? h.assemblies hi _

/-! ## Announcing a module -/

/-- The numbers that the types of a module get. -/
def newTypes (base : Catalog) (source : ModuleSource) : List TypeId :=
  (List.range' base.types.size source.types.length).map TypeId.mk

/-- The declared types of a module with the numbers that they get. -/
def numbered (base : Catalog) (source : ModuleSource) : List (TypeDeclaration × TypeId) :=
  source.types.zip (base.newTypes source)

/-- The catalog with the assembly of a module and its types, still without members. -/
def announce (base : Catalog) (source : ModuleSource) : Catalog where
  assemblies := base.assemblies.push
    ⟨normalizeAssemblyName source.assembly, false, base.newTypes source⟩
  types := base.types ++ (source.types.map (TypeDeclaration.header ⟨base.assemblies.size⟩)).toArray
  methods := base.methods

/-- A catalog of a load that has announced the module and added members of its types since. -/
structure Announced (base : Catalog) (source : ModuleSource) (catalog : Catalog) : Prop where
  extension : base.Extends catalog
  assemblies : catalog.assemblies = (base.announce source).assemblies
  headers : catalog.types.map TypeDefinition.header =
    (base.announce source).types.map TypeDefinition.header

section Announcing

variable {base catalog : Catalog} {source : ModuleSource}

/-- The new types are numbered on behind the old ones. -/
theorem mem_newTypes {id : TypeId} :
    id ∈ base.newTypes source ↔
      base.types.size ≤ id.index ∧ id.index < base.types.size + source.types.length := by
  constructor
  · intro hm
    obtain ⟨index, hindex, rfl⟩ := List.mem_map.mp hm
    simpa using hindex
  · intro hm
    exact List.mem_map.mpr ⟨id.index, by simpa using hm, rfl⟩

/-- Announcing a module adds as many types as it declares. -/
theorem size_types_announce :
    (base.announce source).types.size = base.types.size + source.types.length := by
  simp [announce]

/-- Announcing a module changes nothing that was there. -/
theorem extends_announce (base : Catalog) (source : ModuleSource) :
    base.Extends (base.announce source) where
  assemblies i a h := getElem?_push_of_getElem? h _
  types := by
    intro i t h
    obtain ⟨hlt, _⟩ := Array.getElem?_eq_some_iff.mp h
    simp only [announce, Array.getElem?_append_left hlt, h]
  methods _ _ h := h
  declared := by
    intro i m h hi
    obtain ⟨hlt, _⟩ := Array.getElem?_eq_some_iff.mp h
    simp only [announce] at hlt
    omega

/-- What a module announces is announced right away. -/
theorem announced_announce (base : Catalog) (source : ModuleSource) :
    Announced base source (base.announce source) :=
  ⟨extends_announce base source, rfl, rfl⟩

/-- The later phases of a load add no more types. -/
theorem Announced.size_types (h : Announced base source catalog) :
    catalog.types.size = base.types.size + source.types.length := by
  have hsize := congrArg Array.size h.headers
  simpa only [Array.size_map, size_types_announce] using hsize

/-- Members are added to types that were announced. -/
theorem Announced.modifyType (h : Announced base source catalog) {id : TypeId}
    (hm : id ∈ base.newTypes source) {f : TypeDefinition → TypeDefinition}
    (hf : ∀ t, (f t).header = t.header) :
    Announced base source { catalog with types := catalog.types.modify id.index f } := by
  have hnew := (mem_newTypes.mp hm).1
  have hheaders : (catalog.types.modify id.index f).map TypeDefinition.header =
      catalog.types.map TypeDefinition.header := by
    apply Array.ext_getElem?
    intro i
    simp only [Array.getElem?_map, Array.getElem?_modify]
    split
    · simp [Option.map_map, Function.comp_def, hf]
    · rfl
  refine ⟨⟨h.extension.assemblies, ?_, h.extension.methods, ?_⟩, h.assemblies,
    hheaders.trans h.headers⟩
  · intro i t ht
    obtain ⟨hlt, _⟩ := Array.getElem?_eq_some_iff.mp ht
    have hne : id.index ≠ i := by omega
    simp only [Array.getElem?_modify, if_neg hne]
    exact h.extension.types i t ht
  · simpa only [Array.size_modify] using h.extension.declared

/-- A field of a new type adds to what was announced. -/
theorem Announced.addField (h : Announced base source catalog) {id : TypeId}
    (hm : id ∈ base.newTypes source) (declaring : TypeId) (name : String)
    (fieldType : Option TypeRef) :
    Announced base source (catalog.addField id declaring name fieldType) :=
  h.modifyType hm fun _ => rfl

/-- A method of a new type adds to what was announced. -/
theorem Announced.addMethod (h : Announced base source catalog) {method : Method}
    (hm : method.declaringType ∈ base.newTypes source) :
    Announced base source (catalog.addMethod method).2 := by
  have hnew := mem_newTypes.mp hm
  have hsize := h.size_types
  have hpushed : Announced base source
      { catalog with methods := catalog.methods.push method } := by
    refine ⟨⟨h.extension.assemblies, h.extension.types, ?_, ?_⟩, h.assemblies, h.headers⟩
    · intro i m hmethod
      exact getElem?_push_of_getElem? (h.extension.methods i m hmethod) _
    · intro i m hmethod hi
      simp only [Array.getElem?_push] at hmethod
      split at hmethod
      · cases hmethod
        simp only
        omega
      · exact h.extension.declared i m hmethod hi
  refine hpushed.modifyType hm fun t => ?_
  split <;> rfl

/-- A type is as it was announced, members apart. -/
theorem Announced.header_type (h : Announced base source catalog) (id : TypeId) :
    (catalog.type id).header = ((base.announce source).type id).header := by
  have hsame : (catalog.types[id.index]?).map TypeDefinition.header =
      ((base.announce source).types[id.index]?).map TypeDefinition.header := by
    rw [← Array.getElem?_map, ← Array.getElem?_map, h.headers]
  rw [Catalog.type, Catalog.type, Array.getD_eq_getD_getElem?, Array.getD_eq_getD_getElem?]
  cases hc : catalog.types[id.index]? <;> cases ha : (base.announce source).types[id.index]? <;>
    simp_all

/-- A type keeps the name under which it was announced. -/
theorem Announced.name_type (h : Announced base source catalog) (id : TypeId) :
    (catalog.type id).name = ((base.announce source).type id).name := by
  have hsame := congrArg TypeDefinition.name (h.header_type id)
  exact hsame

/-- A type keeps the namespace under which it was announced. -/
theorem Announced.nameSpace_type (h : Announced base source catalog) (id : TypeId) :
    (catalog.type id).nameSpace = ((base.announce source).type id).nameSpace := by
  have hsame := congrArg TypeDefinition.nameSpace (h.header_type id)
  exact hsame

/-- A type keeps the base type with which it was announced. -/
theorem Announced.base_type (h : Announced base source catalog) (id : TypeId) :
    (catalog.type id).base = ((base.announce source).type id).base := by
  have hsame := congrArg TypeDefinition.base (h.header_type id)
  exact hsame

/-- The numbered declarations are those of the module in their order. -/
theorem map_fst_numbered (base : Catalog) (source : ModuleSource) :
    (base.numbered source).map Prod.fst = source.types :=
  List.map_fst_zip (by simp [newTypes])

/-- The numbers of the declarations are those of the new types. -/
theorem map_snd_numbered (base : Catalog) (source : ModuleSource) :
    (base.numbered source).map Prod.snd = base.newTypes source :=
  List.map_snd_zip (by simp [newTypes])

/-- Each declared type is announced under its number. -/
theorem type_announce {type : TypeDeclaration} {id : TypeId}
    (h : (type, id) ∈ base.numbered source) :
    (base.announce source).type id = type.header ⟨base.assemblies.size⟩ := by
  obtain ⟨i, hi, hpair⟩ := List.mem_iff_getElem.mp h
  simp only [numbered, List.getElem_zip, Prod.mk.injEq] at hpair
  obtain ⟨rfl, rfl⟩ := hpair
  have hlt : i < source.types.length := List.lt_length_left_of_zip hi
  simp [newTypes, Catalog.type, announce, hlt]

/-- Every new number is that of a declared type. -/
theorem exists_declaration {id : TypeId} (h : id ∈ base.newTypes source) :
    ∃ type, (type, id) ∈ base.numbered source := by
  rw [← map_snd_numbered, List.mem_map] at h
  obtain ⟨⟨type, _⟩, hpair, rfl⟩ := h
  exact ⟨type, hpair⟩

/-- Every declared type gets a number. -/
theorem exists_number (base : Catalog) {type : TypeDeclaration} (h : type ∈ source.types) :
    ∃ id, (type, id) ∈ base.numbered source := by
  rw [← map_fst_numbered base source, List.mem_map] at h
  obtain ⟨⟨_, id⟩, hpair, rfl⟩ := h
  exact ⟨id, hpair⟩

end Announcing

end Catalog

/-! ## Loading -/

namespace Load

open Catalog

/-- The catalog after a load or a part of one, whether it succeeded or failed. -/
def after {α : Type} : EStateM.Result Fault Catalog α → Catalog
  | .ok _ catalog => catalog
  | .error _ catalog => catalog

/-- The computation keeps a property of the catalog, also when it fails. -/
def Keeps (P : Catalog → Prop) {α : Type} (x : Load α) : Prop :=
  ∀ catalog, P catalog → P (after (x catalog))

/-- What is kept by adding members to the types `ids`. -/
structure Stable (ids : List TypeId) (P : Catalog → Prop) : Prop where
  addField : ∀ {catalog}, P catalog → ∀ id ∈ ids, ∀ declaring ∈ ids, ∀ name fieldType,
    P (catalog.addField id declaring name fieldType)
  addMethod : ∀ {catalog}, P catalog → ∀ method : Method, method.declaringType ∈ ids →
    P (catalog.addMethod method).2

section Keeping

variable {P : Catalog → Prop}

/-- Giving a value changes no catalog. -/
theorem keeps_pure {α : Type} (a : α) : Keeps P (pure a) := fun _ h => h

/-- Phases in sequence keep the property if each of them does. -/
theorem Keeps.bind {α β : Type} {x : Load α} {f : α → Load β} (hx : Keeps P x)
    (hf : ∀ a, Keeps P (f a)) : Keeps P (x >>= f) := by
  intro catalog h
  have hfirst := hx catalog h
  simp only [Bind.bind, EStateM.bind]
  cases hxc : x catalog with
  | error fault catalog' =>
    rw [hxc] at hfirst
    exact hfirst
  | ok a catalog' =>
    rw [hxc] at hfirst
    exact hf a catalog' hfirst

/-- Reading a declaration changes no catalog. -/
theorem keeps_declared {α : Type} (x : Except DecodeError α) : Keeps P (declared x) := by
  intro catalog h
  cases x <;> exact h

/-- A phase that keeps the property may be repeated for every item of a list. -/
theorem keeps_forM {α : Type} {items : List α} {f : α → Load Unit}
    (hf : ∀ a ∈ items, Keeps P (f a)) : Keeps P (items.forM f) := by
  induction items with
  | nil => exact keeps_pure ()
  | cons a items ih =>
    exact (hf a List.mem_cons_self).bind fun _ => ih fun b hb => hf b (List.mem_cons_of_mem _ hb)

/-- A phase that keeps the property may be repeated to gather what it gives. -/
theorem keeps_mapM {α β : Type} {items : List α} {f : α → Load β}
    (hf : ∀ a ∈ items, Keeps P (f a)) : Keeps P (items.mapM f) := by
  induction items with
  | nil =>
    rw [List.mapM_nil]
    exact keeps_pure _
  | cons a items ih =>
    rw [List.mapM_cons]
    refine (hf a List.mem_cons_self).bind fun _ => ?_
    exact (ih fun b hb => hf b (List.mem_cons_of_mem _ hb)).bind fun _ => keeps_pure _

/-- Refusing cycles looks at the catalog and leaves it as it is. -/
theorem refuseCycles_eq (checked : List TypeId) (catalog : Catalog) :
    refuseCycles checked catalog =
      match checked.find? catalog.hasCyclicBase with
      | some id => .error (.resolve (.cyclicInheritance (catalog.fullName id))) catalog
      | none => .ok () catalog := by
  change (match checked.find? catalog.hasCyclicBase with
    | some id => throw (.resolve (.cyclicInheritance (catalog.fullName id)))
    | none => pure () : Load Unit) catalog = _
  cases checked.find? catalog.hasCyclicBase <;> rfl

/-- The check for cycles changes no catalog, whether it refuses or not. -/
theorem keeps_refuseCycles (checked : List TypeId) : Keeps P (refuseCycles checked) := by
  intro catalog h
  rw [refuseCycles_eq]
  cases checked.find? catalog.hasCyclicBase <;> exact h

variable {ids : List TypeId}

/-- A stable property survives adding the fields of a declaration. -/
theorem Stable.foldl_addField (hs : Stable ids P) {id declaring : TypeId} (hi : id ∈ ids)
    (hd : declaring ∈ ids) (fields : List FieldDeclaration) {catalog : Catalog} (h : P catalog) :
    P (fields.foldl (fun catalog f => catalog.addField id declaring f.name f.fieldType)
      catalog) := by
  induction fields generalizing catalog with
  | nil => exact h
  | cons field fields ih => exact ih (hs.addField h id hi declaring hd field.name field.fieldType)

/-- The type that counts as declaring a field is one that the module declares. -/
theorem declaring_mem {source : ModuleSource} {id : TypeId} (hi : id ∈ ids)
    (ancestor : TypeDeclaration) :
    ((source.types.zip ids).lookup ancestor).getD id ∈ ids := by
  cases hfound : (source.types.zip ids).lookup ancestor with
  | none => exact hi
  | some declaring =>
    obtain ⟨front, back, hsplit, _⟩ := List.lookup_eq_some_iff.mp hfound
    have hm : (ancestor, declaring) ∈ source.types.zip ids := by simp [hsplit]
    exact (List.of_mem_zip hm).2

/-- A stable property survives reading and adding the fields of a declaration. -/
theorem Stable.addFields (hs : Stable ids P) (source : ModuleSource) {id : TypeId} (hi : id ∈ ids)
    (ancestor : TypeDeclaration) :
    Keeps P (Load.addFields source (source.types.zip ids) id ancestor) :=
  (keeps_declared _).bind fun fields _ h =>
    hs.foldl_addField hi (declaring_mem hi ancestor) fields h

/-- Adding members keeps what adding one member keeps. -/
theorem keeps_addMembers_of (source : ModuleSource) (type : TypeDeclaration) {id : TypeId}
    (h : ∀ kind method, Keeps P (addMethod id kind method)) :
    Keeps P (Load.addMembers source type id) := by
  refine (keeps_declared _).bind fun constructors => ?_
  refine (keeps_forM fun method _ => h _ method).bind fun _ => ?_
  exact (keeps_declared _).bind fun methods => keeps_forM fun method _ => h _ method

/-- A stable property survives adding the constructors and methods of a declaration. -/
theorem Stable.addMembers (hs : Stable ids P) (source : ModuleSource) (type : TypeDeclaration)
    {id : TypeId} (hi : id ∈ ids) : Keeps P (Load.addMembers source type id) :=
  keeps_addMembers_of source type fun _ _ _ h => hs.addMethod h _ hi

/-- What a load does once the module is announced. -/
def addContent (source : ModuleSource) (assembly : AssemblyId) (ids : List TypeId) :
    Load AssemblyId := do
  refuseCycles ids
  let types := source.types.zip ids
  types.forM fun (type, id) =>
    (lineage source.types source.assembly type).forM (addFields source types id)
  types.forM fun (type, id) => addMembers source type id
  return assembly

/-- A stable property survives all that follows the announcement. -/
theorem Stable.addContent (hs : Stable ids P) (source : ModuleSource) (assembly : AssemblyId) :
    Keeps P (Load.addContent source assembly ids) := by
  have hadded : ∀ type ∈ source.types.zip ids, type.2 ∈ ids :=
    fun type ht => (List.of_mem_zip ht).2
  refine (keeps_refuseCycles ids).bind fun _ => ?_
  refine (keeps_forM fun type ht => ?_).bind fun _ => ?_
  · exact keeps_forM fun ancestor _ => hs.addFields source (hadded type ht) ancestor
  · refine (keeps_forM fun type ht => ?_).bind fun _ => keeps_pure assembly
    exact hs.addMembers source type.1 (hadded type ht)

end Keeping

/-- Adding types one after another appends them, to the catalog and to their assembly. -/
theorem mapM_addType (assembly : AssemblyId) (types : List TypeDeclaration) (catalog : Catalog) :
    types.mapM (addType assembly) catalog =
      .ok ((List.range' catalog.types.size types.length).map TypeId.mk)
        { catalog with
          types := catalog.types ++ (types.map (TypeDeclaration.header assembly)).toArray
          assemblies := catalog.assemblies.modify assembly.index fun a =>
            { a with types :=
                a.types ++ (List.range' catalog.types.size types.length).map TypeId.mk } } := by
  induction types generalizing catalog with
  | nil =>
    have hsame : catalog.assemblies.modify assembly.index (fun a => a) = catalog.assemblies := by
      apply Array.ext_getElem?
      intro i
      simp [Array.getElem?_modify]
    simp [List.mapM_nil, hsame, pure, EStateM.pure]
  | cons type types ih =>
    have hfirst : addType assembly type catalog =
        .ok ⟨catalog.types.size⟩
          (catalog.addType assembly type.nameSpace type.name type.base).2 := rfl
    rw [List.mapM_cons]
    simp only [bind, EStateM.bind, hfirst, ih]
    simp [Catalog.addType, pure, EStateM.pure, modify_modify, Function.comp_def,
      TypeDeclaration.header, List.range'_succ]

/-- Once the types of a module are added it is announced. -/
theorem mapM_addType_announce (source : ModuleSource) (base : Catalog) :
    source.types.mapM (addType ⟨base.assemblies.size⟩) (base.addAssembly source.assembly false).2 =
      .ok (base.newTypes source) (base.announce source) := by
  have hassembly : (base.addAssembly source.assembly false).2.assemblies.modify
      base.assemblies.size (fun a => { a with types := a.types ++ base.newTypes source }) =
      (base.announce source).assemblies := by
    apply Array.ext_getElem?
    intro i
    simp only [addAssembly, announce, Array.getElem?_modify, Array.getElem?_push]
    by_cases hi : base.assemblies.size = i
    · simp [hi]
    · simp [hi, Ne.symm hi]
  rw [mapM_addType]
  exact congrArg (fun assemblies => EStateM.Result.ok (base.newTypes source)
    { base.announce source with assemblies }) hassembly

/-- A load announces the module and then adds its content. -/
theorem addModule_eq (source : ModuleSource) (base : Catalog) :
    addModule source base =
      addContent source ⟨base.assemblies.size⟩ (base.newTypes source) (base.announce source) := by
  have hid : (base.addAssembly source.assembly false).1 = ⟨base.assemblies.size⟩ := rfl
  change EStateM.bind (source.types.mapM (addType (base.addAssembly source.assembly false).1)) _
    (base.addAssembly source.assembly false).2 = _
  rw [EStateM.bind, hid, mapM_addType_announce]
  rfl

/-- What adding members keeps is true after a load if it is true once the module is announced. -/
theorem Stable.addModule {P : Catalog → Prop} {source : ModuleSource} {base : Catalog}
    (hs : Stable (base.newTypes source) P) (h : P (base.announce source)) :
    P (after (Load.addModule source base)) := by
  rw [addModule_eq]
  exact hs.addContent source _ _ h

/-- Every load announces the module, whether it succeeds or fails. -/
theorem announced_addModule (source : ModuleSource) (base : Catalog) :
    Announced base source (after (addModule source base)) :=
  Stable.addModule
    ⟨fun h _ hi declaring _ => h.addField hi declaring, fun h _ hm => h.addMethod hm⟩
    (announced_announce base source)

end Load

namespace Machine

/-- Loading a module changes nothing but the catalog. -/
theorem machine_loadModule (source : ModuleSource) (m : Machine) :
    Outcome.machine (m.loadModule source) =
      { m with catalog := Load.after (Load.addModule source m.catalog) } := by
  unfold loadModule
  cases Load.addModule source m.catalog <;> rfl

/-- Whether a load fails or not, it leaves what the module announced and members of its types. -/
theorem announced_loadModule (source : ModuleSource) (m : Machine) :
    m.catalog.Announced source (Outcome.machine (m.loadModule source)).catalog := by
  rw [machine_loadModule]
  exact Load.announced_addModule source m.catalog

end Machine

end ManagedCode
