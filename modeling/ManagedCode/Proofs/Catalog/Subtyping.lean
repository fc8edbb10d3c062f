import ManagedCode.Proofs.Catalog.Cycles
import ManagedCode.Proofs.Catalog.Rejection
import ManagedCode.Proofs.Execution.Layout

/-!
# Subtyping

While only accepted modules are loaded, no type is derived from itself, however far apart. A load
looks for cycles only from the types that it adds, but one that it closes always goes through one of
them: what a reference leads to was found before, or it is a new type. So whether an instance of one
type may stand for one of another is a partial order, with the built-in type of all objects on top.
-/

namespace ManagedCode

open Relation

namespace Catalog

/-! ## Cycles that a load closes -/

/-- No type comes back to itself by going from base type to base type. -/
def Acyclic (catalog : Catalog) : Prop := ∀ type, ¬ TransGen catalog.Derives type type

/-- A catalog is acyclic exactly if the check for cycles finds none. -/
theorem acyclic_iff {catalog : Catalog} :
    catalog.Acyclic ↔ ∀ type ∈ catalog.allTypes, catalog.hasCyclicBase type = false := by
  constructor
  · intro hacyclic type _
    rw [Bool.eq_false_iff]
    intro hcycle
    obtain ⟨id, -, hid⟩ := hasCyclicBase_iff.mp hcycle
    exact hacyclic id hid
  · intro hnone type hcycle
    obtain ⟨parent, hparent, -⟩ := TransGen.head'_iff.mp hcycle
    have hfalse := hnone type (mem_allTypes.mpr (index_lt_of_base? hparent))
    rw [hasCyclicBase_iff.mpr ⟨type, .refl, hcycle⟩] at hfalse
    cases hfalse

/-- The built-in types are acyclic. -/
theorem acyclic_library : Library.catalog.Acyclic := by
  rw [acyclic_iff]
  decide +kernel

section Announcing

variable {base catalog : Catalog} {source : ModuleSource}

/-- An assembly that is found only after a load is the one that was loaded. -/
theorem Announced.findAssembly?_new (h : Announced base source catalog) {name : String}
    (hold : base.findAssembly? name = none) {id : AssemblyId}
    (hf : catalog.findAssembly? name = some id) :
    normalizeAssemblyName source.assembly = normalizeAssemblyName name ∧
      id = ⟨base.assemblies.size⟩ := by
  unfold findAssembly? at hold hf
  rw [Option.map_eq_none_iff] at hold
  simp only [h.assemblies, announce, Array.findIdx?_push, hold, Option.none_or,
    Option.map_eq_some_iff, Option.ite_none_right_eq_some, Option.some.injEq, beq_iff_eq] at hf
  obtain ⟨index, ⟨hname, rfl⟩, rfl⟩ := hf
  exact ⟨hname, rfl⟩

/-- What a reference leads to after a load was found before, or it is a type of the module. -/
theorem Announced.resolvePlainType_old_or_new (h : Announced base source catalog)
    (hc : base.Closed) {ref : TypeRef} {id : TypeId} (hr : catalog.resolvePlainType ref = .ok id) :
    base.resolvePlainType ref = .ok id ∨
      normalizeAssemblyName source.assembly = normalizeAssemblyName ref.assembly ∧
        (base.newTypes source).find? (fun id =>
          (catalog.type id).name == ref.name && (catalog.type id).nameSpace == ref.nameSpace) =
            some id := by
  obtain ⟨assembly, hassembly, hfind⟩ := resolvePlainType_eq_ok_iff.mp hr
  cases hold : base.findAssembly? ref.assembly with
  | none =>
    right
    obtain ⟨hname, rfl⟩ := h.findAssembly?_new hold hassembly
    rw [h.assembly_eq] at hfind
    exact ⟨hname, hfind⟩
  | some known =>
    left
    obtain ⟨hagain, hlt⟩ := h.extension.findAssembly?_eq hold
    rw [hagain] at hassembly
    cases hassembly
    refine resolvePlainType_eq_ok_iff.mpr ⟨assembly, hold, ?_⟩
    rw [← hfind, h.extension.assembly_eq hlt]
    apply List.find?_congr
    intro type hm
    rw [h.extension.type_eq (hc.listed _ (mem_assemblies hlt) type hm)]

/-- A reference leads where it led before, or to a new type. -/
theorem Announced.resolveType_old_or_new (h : Announced base source catalog) (hc : base.Closed)
    {ref : TypeRef} {id : TypeId} (hr : catalog.resolveType ref = .ok id) :
    base.resolveType ref = .ok id ∨ id ∈ base.newTypes source := by
  rcases h.resolvePlainType_old_or_new hc hr with hold | ⟨-, hnew⟩
  · exact .inl hold
  · exact .inr (List.mem_of_find?_eq_some hnew)

/-- A type that was there is derived from what it was derived from, or from a new type. -/
theorem Announced.derives_old_or_new (h : Announced base source catalog) (hc : base.Closed)
    {derived parent : TypeId} (hd : catalog.Derives derived parent)
    (hold : derived ∉ base.newTypes source) :
    base.Derives derived parent ∨ parent ∈ base.newTypes source := by
  have hlt : derived.index < base.types.size := by
    have hlt := index_lt_of_base? hd
    rw [h.size_types] at hlt
    rw [mem_newTypes] at hold
    omega
  unfold Derives Catalog.base? at hd ⊢
  rw [h.extension.type_eq hlt] at hd
  obtain ⟨ref, href, hd⟩ := Option.bind_eq_some_iff.mp hd
  cases hr : catalog.resolveType ref with
  | error e => simp [hr] at hd
  | ok found =>
    simp only [hr, Option.ite_none_left_eq_some, Option.some.injEq] at hd
    obtain ⟨hne, rfl⟩ := hd
    rcases h.resolveType_old_or_new hc hr with hfound | hnew
    · left
      simp [href, hfound, hne]
    · exact .inr hnew

/-- A cycle that was not there before goes through a new type. -/
theorem Announced.acyclic (h : Announced base source catalog) (hc : base.Closed)
    (hacyclic : base.Acyclic)
    (hnew : ∀ type ∈ base.newTypes source, catalog.hasCyclicBase type = false) :
    catalog.Acyclic := by
  intro type hcycle
  have hold : ∀ id, ReflTransGen catalog.Derives type id → id ∉ base.newTypes source := by
    intro id hreaches hm
    have hfalse := hnew id hm
    rw [hasCyclicBase_iff.mpr ⟨id, .refl, onCycle_of_reaches hcycle hreaches⟩] at hfalse
    cases hfalse
  have hbefore : ∀ id, TransGen catalog.Derives type id → TransGen base.Derives type id := by
    intro id hreaches
    induction hreaches with
    | single hd =>
      exact .single ((h.derives_old_or_new hc hd (hold _ .refl)).resolve_right
        (hold _ (.single hd)))
    | tail hreaches hd ih =>
      exact ih.tail ((h.derives_old_or_new hc hd (hold _ hreaches.to_reflTransGen)).resolve_right
        (hold _ (hreaches.to_reflTransGen.tail hd)))
  exact hacyclic type (hbefore type hcycle)

end Announcing

/-! ## The type of all objects -/

/-- The number of the type of all objects. -/
def objectId : TypeId := Library.typeId Library.object

/-- The type is built in and has the name of the type of all objects. -/
def IsObject (catalog : Catalog) (type : TypeId) : Prop :=
  catalog.fullName type = "System.Object" ∧
    (catalog.assembly (catalog.type type).assembly).isBuiltin = true

instance (catalog : Catalog) (type : TypeId) : Decidable (catalog.IsObject type) :=
  inferInstanceAs (Decidable (_ ∧ _))

section Objects

variable {base catalog : Catalog} {source : ModuleSource}

/-- The root of all types is a type of the catalog. -/
theorem IsObject.index_lt {type : TypeId} (h : catalog.IsObject type) :
    type.index < catalog.types.size := by
  apply index_lt_of_type_ne
  intro hnone
  have hname := h.1
  simp [fullName, typeRef, hnone, default, instInhabitedTypeDefinition.default, TypeRef.ofNames,
    TypeRef.fullName] at hname

/-- A new type is in the assembly that is loaded, which is not built in. -/
theorem Announced.not_isObject_new (h : Announced base source catalog) {type : TypeId}
    (hm : type ∈ base.newTypes source) : ¬ catalog.IsObject type := by
  obtain ⟨declared, hpair⟩ := exists_declaration hm
  have hassembly : (catalog.type type).assembly = ⟨base.assemblies.size⟩ := by
    have hheader := h.header_type type
    rw [type_announce hpair] at hheader
    exact congrArg TypeDefinition.assembly hheader
  intro hobject
  have hbuiltin := hobject.2
  rw [hassembly, h.assembly_eq] at hbuiltin
  cases hbuiltin

/-- Loading brings no further type of all objects. -/
theorem Announced.isObject_iff (h : Announced base source catalog) (hc : base.Closed)
    {type : TypeId} : catalog.IsObject type ↔ base.IsObject type := by
  by_cases hlt : type.index < base.types.size
  · have howner := hc.owner _ (mem_types hlt)
    simp only [IsObject, h.extension.fullName_eq hlt howner, h.extension.type_eq hlt,
      h.extension.assembly_eq howner]
  · constructor
    · intro hobject
      have hnew := hobject.index_lt
      rw [h.size_types] at hnew
      exact absurd hobject (h.not_isObject_new (mem_newTypes.mpr ⟨Nat.le_of_not_lt hlt, hnew⟩))
    · exact fun hobject => absurd hobject.index_lt hlt

/-- There is one root of all types. -/
theorem isObject_library {type : TypeId} : Library.catalog.IsObject type ↔ type = objectId := by
  constructor
  · intro hobject
    have hall : ∀ type ∈ Library.catalog.allTypes,
        Library.catalog.IsObject type → type = objectId := by
      decide +kernel
    exact hall type (mem_allTypes.mpr hobject.index_lt) hobject
  · rintro rfl
    decide +kernel

/-- There is one type of all objects, whatever was loaded. -/
theorem Loaded.isObject_iff (h : catalog.Loaded) {type : TypeId} :
    catalog.IsObject type ↔ type = objectId := by
  induction h with
  | library => exact isObject_library
  | load source hl ih =>
    rw [(Load.announced_addModule source _).isObject_iff hl.closed]
    exact ih

/-- What was loaded extends the built-in types. -/
theorem Loaded.extends_library (h : catalog.Loaded) : Library.catalog.Extends catalog := by
  induction h with
  | library => exact .refl _
  | load source _ ih => exact ih.trans (Load.announced_addModule source _).extension

/-- The type of all objects has no base type. -/
theorem Loaded.base?_object (h : catalog.Loaded) : catalog.base? objectId = none := by
  have hbase : (Library.catalog.type objectId).base = none := by decide +kernel
  have hlt : objectId.index < Library.catalog.types.size := by decide +kernel
  rw [base?, h.extends_library.type_eq hlt, hbase]
  rfl

/-- Assignable are the types that can be reached, and the type of all objects. -/
theorem Loaded.isAssignable_iff (h : catalog.Loaded) {source target : TypeId} :
    catalog.isAssignable source target = true ↔
      ReflTransGen catalog.Derives source target ∨ target = objectId := by
  rw [← h.isObject_iff, ← mem_ancestry_iff]
  simp [isAssignable, IsObject]

end Objects

/-! ## The order of types -/

/-- Assignability is a partial order of the types with a greatest one, and no type comes back to
itself by going from base type to base type. -/
structure Ordered (catalog : Catalog) (greatest : TypeId) : Prop where
  refl : ∀ type, catalog.isAssignable type type = true
  trans : ∀ {a b c}, catalog.isAssignable a b = true → catalog.isAssignable b c = true →
    catalog.isAssignable a c = true
  antisymm : ∀ {a b}, catalog.isAssignable a b = true → catalog.isAssignable b a = true → a = b
  le_greatest : ∀ type, catalog.isAssignable type greatest = true
  acyclic : catalog.Acyclic

section Ordering

variable {catalog : Catalog} {type parent : TypeId}

/-- Nothing but itself can be reached from the type of all objects. -/
theorem Loaded.eq_of_reaches_object (h : catalog.Loaded)
    (hr : ReflTransGen catalog.Derives objectId type) : type = objectId := by
  rcases ReflTransGen.cases_head hr with hsame | ⟨parent, hd, -⟩
  · exact hsame.symm
  · rw [Derives, h.base?_object] at hd
    cases hd

/-- Types that derive from each other are equal. -/
theorem Acyclic.eq_of_reaches (h : catalog.Acyclic)
    (hup : ReflTransGen catalog.Derives type parent)
    (hdown : ReflTransGen catalog.Derives parent type) : type = parent := by
  rcases ReflTransGen.cases_head hup with hsame | ⟨next, hd, hrest⟩
  · exact hsame
  · exact absurd (TransGen.head' hd (hrest.trans hdown)) (h type)

/-- Without cycles, being assignable is a partial order with the root as its greatest type. -/
theorem Acyclic.ordered (h : catalog.Acyclic) (hl : catalog.Loaded) : catalog.Ordered objectId where
  refl type := hl.isAssignable_iff.mpr (.inl .refl)
  trans := by
    intro a b c hab hbc
    rw [hl.isAssignable_iff] at hab hbc ⊢
    rcases hbc with hbc | rfl
    · rcases hab with hab | rfl
      · exact .inl (hab.trans hbc)
      · exact .inr (hl.eq_of_reaches_object hbc)
    · exact .inr rfl
  antisymm := by
    intro a b hab hba
    rw [hl.isAssignable_iff] at hab hba
    rcases hab with hab | rfl
    · rcases hba with hba | rfl
      · exact h.eq_of_reaches hab hba
      · exact (hl.eq_of_reaches_object hab).symm
    · rcases hba with hba | rfl
      · exact hl.eq_of_reaches_object hba
      · rfl
  le_greatest type := hl.isAssignable_iff.mpr (.inr rfl)
  acyclic := h

end Ordering

end Catalog

namespace Machine

/-- What a machine accepts is added to its catalog. -/
theorem addModule_of_loadModule {m m' : Machine} {source : ModuleSource} {assembly : AssemblyId}
    (h : m.loadModule source = .ok assembly m') :
    Load.addModule source m.catalog = .ok assembly m'.catalog := by
  unfold loadModule at h
  split at h
  · rename_i hadded
    cases h
    exact hadded
  · cases h

/-- Loading a module succeeds, and leads from the one machine to the other. -/
def Accepts (m m' : Machine) : Prop := ∃ source assembly, m.loadModule source = .ok assembly m'

/-- Accepted modules lead to catalogs that were reached by loads. -/
theorem Accepts.loaded {m m' : Machine} (h : m.Accepts m') (hl : m.catalog.Loaded) :
    m'.catalog.Loaded := by
  obtain ⟨source, assembly, hok⟩ := h
  have hm := loaded_loadModule hl source
  rwa [hok] at hm

/-- A load that succeeds accepts its module. -/
theorem accepts_of_succeeds {m : Machine} {source : ModuleSource}
    (h : (Outcome.result? (m.loadModule source)).isSome = true) :
    m.Accepts (Outcome.machine (m.loadModule source)) := by
  obtain ⟨assembly, hok⟩ := Option.isSome_iff_exists.mp h
  exact ⟨source, assembly, Outcome.eq_ok_of_result? hok⟩

/-- Loading a module that is accepted closes no cycle. -/
theorem Accepts.acyclic {m m' : Machine} (h : m.Accepts m') (hl : m.catalog.Loaded)
    (hacyclic : m.catalog.Acyclic) : m'.catalog.Acyclic := by
  obtain ⟨source, assembly, hok⟩ := h
  have hannounced := announced_loadModule source m
  rw [hok] at hannounced
  exact hannounced.acyclic hl.closed hacyclic
    (Load.hasCyclicBase_of_addModule_eq_ok (addModule_of_loadModule hok))

/-- Accepted modules never bring a cycle. -/
theorem loaded_and_acyclic {options : Options} {files : Files} {m : Machine}
    (h : ReflTransGen Accepts (new options files) m) : m.catalog.Loaded ∧ m.catalog.Acyclic := by
  induction h with
  | refl => exact ⟨.library, Catalog.acyclic_library⟩
  | tail _ hstep ih => exact ⟨hstep.loaded ih.1, hstep.acyclic ih.1 ih.2⟩

end Machine

/-- Subtyping is a partial order. On every machine that a new one gets to by loading modules that
are accepted, in whatever order these refer to the types of one another, assignability orders the
types, and the greatest of them is the one that the reference to the built-in type of all objects
finds. -/
theorem types_ordered {options : Options} {files : Files} {m : Machine}
    (h : ReflTransGen Machine.Accepts (Machine.new options files) m) :
    ∃ object, m.catalog.resolveType Library.object = .ok object ∧ m.catalog.IsObject object ∧
      m.catalog.Ordered object := by
  obtain ⟨hloaded, hacyclic⟩ := Machine.loaded_and_acyclic h
  have hfound : Library.catalog.resolveType Library.object = .ok Catalog.objectId := by
    decide +kernel
  refine ⟨Catalog.objectId, ?_, hloaded.isObject_iff.mpr rfl, hacyclic.ordered hloaded⟩
  exact (hloaded.extends_library.resolveType_eq Catalog.closed_library hfound).1

/-- A module with a type whose base type comes with a later module, and the base type of that one.
-/
def outerModule : ModuleSource where
  assembly := "App"
  types := [⟨"", "Derived", some ⟨"Lib", "", "Middle"⟩⟩, ⟨"", "Root", none⟩]
  fields _ := .ok []
  constructors _ := .ok []
  methods _ := .ok []

/-- The module between the types of the other one. -/
def middleModule : ModuleSource := .ofType "Lib" ⟨"", "Middle", some ⟨"App", "", "Root"⟩⟩

/-- The machine after both modules were loaded. -/
def wovenMachine : Machine :=
  Outcome.machine
    ((Outcome.machine ((Machine.new {} .empty).loadModule outerModule)).loadModule middleModule)

/-- A type is below another one of its module through a type of a later module. -/
theorem types_ordered_woven :
    ReflTransGen Machine.Accepts (Machine.new {} .empty) wovenMachine ∧
      (∃ derived root, wovenMachine.catalog.resolveType ⟨"App", "", "Derived"⟩ = .ok derived ∧
        wovenMachine.catalog.resolveType ⟨"App", "", "Root"⟩ = .ok root ∧
        wovenMachine.catalog.isAssignable derived root = true ∧
        wovenMachine.catalog.isAssignable root derived = false) ∧
      ∃ object, wovenMachine.catalog.resolveType Library.object = .ok object ∧
        wovenMachine.catalog.IsObject object ∧ wovenMachine.catalog.Ordered object := by
  have hreached : ReflTransGen Machine.Accepts (Machine.new {} .empty) wovenMachine :=
    .tail (.single (Machine.accepts_of_succeeds (by decide +kernel)))
      (Machine.accepts_of_succeeds (by decide +kernel))
  let derived : TypeId := ⟨Library.catalog.types.size⟩
  let root : TypeId := ⟨Library.catalog.types.size + 1⟩
  refine ⟨hreached, ⟨derived, root, ?_, ?_, ?_, ?_⟩, types_ordered hreached⟩
  all_goals decide +kernel

end ManagedCode
