import Mathlib.Data.List.Find
import ManagedCode.Library.Types
import ManagedCode.Proofs.Catalog.Extension
import ManagedCode.Proofs.Execution.Attainability
import ManagedCode.Proofs.Execution.Changes

/-!
# Loading is conservative

A catalog that was made by loading modules is closed: every number in it has been given out. So what
a query of it read is still there, and unchanged, in each catalog that extends it. Every query that
found something finds the same again after another load, and the walk through the base types of a
type, which are looked up by name each time, can only go on where it came to an end before.
-/

namespace ManagedCode

/-- An array that keeps every entry of another one goes on where the other one ends. -/
theorem exists_append_of_getElem? {α : Type} {base more : Array α}
    (h : ∀ (i : Nat) a, base[i]? = some a → more[i]? = some a) : ∃ rest, more = base ++ rest := by
  have hprefix : base.toList <+: more.toList := by
    apply List.prefix_iff_getElem?.mpr
    intro i hi
    simpa using h i _ (Array.getElem?_eq_getElem (by simpa using hi))
  obtain ⟨rest, hrest⟩ := hprefix
  exact ⟨rest.toArray, Array.ext' (by simp [hrest])⟩

namespace Catalog

/-! ## Closed catalogs -/

/-- Every number that the catalog mentions has been given out. -/
structure Closed (catalog : Catalog) : Prop where
  listed : ∀ a ∈ catalog.assemblies, ∀ id ∈ a.types, id.index < catalog.types.size
  owner : ∀ t ∈ catalog.types, t.assembly.index < catalog.assemblies.size
  members : ∀ t ∈ catalog.types, ∀ id ∈ t.constructors ++ t.methods,
    id.index < catalog.methods.size

/-- A number below the count is that of a type of the catalog. -/
theorem mem_types {catalog : Catalog} {id : TypeId} (h : id.index < catalog.types.size) :
    catalog.type id ∈ catalog.types := by
  simp [Catalog.type, h]

/-- A number below the count is that of an assembly of the catalog. -/
theorem mem_assemblies {catalog : Catalog} {id : AssemblyId}
    (h : id.index < catalog.assemblies.size) : catalog.assembly id ∈ catalog.assemblies := by
  simp [Catalog.assembly, h]

/-- A number that was not given out has no type. -/
theorem index_lt_of_type_ne {catalog : Catalog} {id : TypeId} (h : catalog.type id ≠ default) :
    id.index < catalog.types.size := by
  by_contra hge
  apply h
  simp [Catalog.type, hge]

section Closing

variable {base catalog : Catalog} {source : ModuleSource}

/-- What a type lists was given out, whether the type was or not. -/
theorem Closed.lt_of_mem_members (hc : catalog.Closed) {type : TypeId} {id : MethodId}
    (hm : id ∈ (catalog.type type).constructors ++ (catalog.type type).methods) :
    id.index < catalog.methods.size := by
  refine hc.members _ (mem_types ?_) id hm
  apply index_lt_of_type_ne
  intro hnone
  rw [hnone] at hm
  cases hm

/-- The built-in types refer to each other only. -/
theorem closed_library : Library.catalog.Closed := by
  constructor <;> decide +kernel

/-- An announced type is listed under a number that it was given. -/
theorem Closed.announce (h : base.Closed) (source : ModuleSource) :
    (base.announce source).Closed where
  listed := by
    intro a ha id hm
    rw [size_types_announce]
    rcases Array.mem_push.mp ha with ha | rfl
    · have hid := h.listed a ha id hm
      omega
    · exact (mem_newTypes.mp hm).2
  owner := by
    intro t ht
    simp only [Catalog.announce, Array.size_push]
    rcases Array.mem_append.mp ht with ht | ht
    · have hid := h.owner t ht
      omega
    · obtain ⟨type, _, rfl⟩ := List.mem_map.mp (List.mem_toArray.mp ht)
      simp [TypeDeclaration.header]
  members := by
    intro t ht id hm
    rcases Array.mem_append.mp ht with ht | ht
    · exact h.members t ht id hm
    · obtain ⟨type, _, rfl⟩ := List.mem_map.mp (List.mem_toArray.mp ht)
      simp [TypeDeclaration.header] at hm

/-- An item of a changed array was there before or is the changed one. -/
theorem mem_modify {α : Type} {xs : Array α} {i : Nat} {f : α → α} {b : α}
    (h : b ∈ xs.modify i f) : ∃ a ∈ xs, b = a ∨ b = f a := by
  obtain ⟨j, hj, rfl⟩ := Array.mem_iff_getElem.mp h
  rw [Array.getElem_modify]
  split
  · exact ⟨_, Array.getElem_mem _, .inr rfl⟩
  · exact ⟨_, Array.getElem_mem _, .inl rfl⟩

/-- A type may be changed if its members stay among those that were given out. -/
theorem Closed.modifyType (h : catalog.Closed) (id : TypeId) {f : TypeDefinition → TypeDefinition}
    (ha : ∀ t, (f t).assembly = t.assembly)
    (hm : ∀ t ∈ catalog.types, ∀ id ∈ (f t).constructors ++ (f t).methods,
      id.index < catalog.methods.size) :
    Closed { catalog with types := catalog.types.modify id.index f } where
  listed := by simpa only [Array.size_modify] using h.listed
  owner := by
    intro t ht
    obtain ⟨old, hold, rfl | rfl⟩ := mem_modify ht
    · exact h.owner _ hold
    · rw [ha]
      exact h.owner _ hold
  members := by
    intro t ht
    obtain ⟨old, hold, rfl | rfl⟩ := mem_modify ht
    · exact h.members _ hold
    · exact hm _ hold

/-- A field does not change which types and methods are listed. -/
theorem Closed.addField (h : catalog.Closed) (id declaring : TypeId) (name : String)
    (fieldType : Option TypeRef) : (catalog.addField id declaring name fieldType).Closed :=
  h.modifyType id (fun _ => rfl) h.members

/-- A method is listed under the number that it was given. -/
theorem Closed.addMethod (h : catalog.Closed) (method : Method) :
    (catalog.addMethod method).2.Closed := by
  have hpushed : Closed { catalog with methods := catalog.methods.push method } := by
    refine ⟨h.listed, h.owner, ?_⟩
    intro t ht id hm
    have hold := h.members t ht id hm
    simp only [Array.size_push]
    omega
  refine hpushed.modifyType method.declaringType ?_ ?_
  · intro t
    split <;> rfl
  · intro t ht id hm
    have hcases : id ∈ t.constructors ++ t.methods ∨ id = ⟨catalog.methods.size⟩ := by
      split at hm <;> simp only [List.mem_append, List.mem_singleton] at hm ⊢ <;> tauto
    rcases hcases with hold | rfl
    · exact hpushed.members t ht id hold
    · simp

/-- Loading a module keeps a catalog closed, whether it succeeds or fails. -/
theorem Closed.addModule (h : base.Closed) (source : ModuleSource) :
    (Load.after (Load.addModule source base)).Closed :=
  Load.Stable.addModule
    ⟨fun hc id _ declaring _ => hc.addField id declaring, fun hc method _ => hc.addMethod method⟩
    (h.announce source)

/-- The catalogs that loading modules makes, also those that a failed load leaves. -/
inductive Loaded : Catalog → Prop
  | library : Loaded Library.catalog
  | load (source : ModuleSource) {catalog : Catalog} (h : Loaded catalog) :
      Loaded (Load.after (Load.addModule source catalog))

/-- A catalog that was reached by loads is closed. -/
theorem Loaded.closed (h : catalog.Loaded) : catalog.Closed := by
  induction h with
  | library => exact closed_library
  | load source _ ih => exact ih.addModule source

end Closing

/-! ## Queries -/

section Queries

variable {base catalog : Catalog}

/-- The first assembly of a name stays the first one. -/
theorem Extends.findAssembly?_eq (h : base.Extends catalog) {name : String} {id : AssemblyId}
    (hf : base.findAssembly? name = some id) :
    catalog.findAssembly? name = some id ∧ id.index < base.assemblies.size := by
  obtain ⟨rest, hrest⟩ := exists_append_of_getElem? h.assemblies
  unfold findAssembly? at hf ⊢
  obtain ⟨i, hfound, rfl⟩ := Option.map_eq_some_iff.mp hf
  obtain ⟨hlt, _⟩ := Array.findIdx?_eq_some_iff_getElem.mp hfound
  refine ⟨?_, hlt⟩
  simp only [hrest, Array.findIdx?_append, hfound, Option.some_or, Option.map_some]

/-- A reference leads to the first type of that name in the first assembly of that name. -/
theorem resolvePlainType_eq_ok_iff {ref : TypeRef} {id : TypeId} :
    catalog.resolvePlainType ref = .ok id ↔
      ∃ assembly, catalog.findAssembly? ref.assembly = some assembly ∧
        (catalog.assembly assembly).types.find? (fun id =>
          (catalog.type id).name == ref.name && (catalog.type id).nameSpace == ref.nameSpace) =
            some id := by
  unfold resolvePlainType
  cases catalog.findAssembly? ref.assembly with
  | none => simp
  | some assembly =>
    simp only [Option.some.injEq, exists_eq_left']
    split
    · rename_i hfound
      rw [hfound]
      simp
    · rename_i hfound
      rw [hfound]
      simp

/-- The type that a reference leads to stays the first one of its name. -/
theorem Extends.resolvePlainType_eq (h : base.Extends catalog) (hc : base.Closed) {ref : TypeRef}
    {id : TypeId} (hr : base.resolvePlainType ref = .ok id) :
    catalog.resolvePlainType ref = .ok id ∧ id.index < base.types.size := by
  obtain ⟨assembly, hassembly, hfind⟩ := resolvePlainType_eq_ok_iff.mp hr
  obtain ⟨hagain, hlt⟩ := h.findAssembly?_eq hassembly
  have htypes : ∀ id ∈ (base.assembly assembly).types, id.index < base.types.size :=
    hc.listed _ (mem_assemblies hlt)
  refine ⟨?_, htypes id (List.mem_of_find?_eq_some hfind)⟩
  apply resolvePlainType_eq_ok_iff.mpr
  refine ⟨assembly, hagain, ?_⟩
  rw [h.assembly_eq hlt, ← hfind]
  apply List.find?_congr
  intro id hm
  rw [h.type_eq (htypes id hm)]

/-- A type that was found is found again, and is one of the types that were there. -/
theorem Extends.resolveType_eq (h : base.Extends catalog) (hc : base.Closed) {ref : TypeRef}
    {id : TypeId} (hr : base.resolveType ref = .ok id) :
    catalog.resolveType ref = .ok id ∧ id.index < base.types.size :=
  h.resolvePlainType_eq hc hr

/-- The members of a known type are as they were. -/
theorem Extends.member_eq (h : base.Extends catalog) (hc : base.Closed) {type : TypeId}
    (hi : type.index < base.types.size) {id : MethodId}
    (hm : id ∈ (base.type type).constructors ++ (base.type type).methods) :
    catalog.method id = base.method id :=
  h.method_eq (hc.members _ (mem_types hi) id hm)

/-- An old type keeps its constructors. -/
theorem Extends.findConstructor?_eq (h : base.Extends catalog) (hc : base.Closed) {type : TypeId}
    (hi : type.index < base.types.size) (parameters : List TypeRef) :
    catalog.findConstructor? type parameters = base.findConstructor? type parameters := by
  unfold findConstructor?
  rw [h.type_eq hi]
  apply List.find?_congr
  intro id hm
  rw [h.member_eq hc hi (List.mem_append_left _ hm)]

/-- An old type keeps its methods. -/
theorem Extends.findMethod?_eq (h : base.Extends catalog) (hc : base.Closed) {type : TypeId}
    (hi : type.index < base.types.size) (name : String) (arity : Nat) :
    catalog.findMethod? type name arity = base.findMethod? type name arity := by
  have hmethods : ∀ id ∈ (base.type type).methods, catalog.method id = base.method id :=
    fun id hm => h.member_eq hc hi (List.mem_append_right _ hm)
  have hnamed : (base.type type).methods.filter (fun id => (catalog.method id).name == name) =
      (base.type type).methods.filter (fun id => (base.method id).name == name) := by
    apply List.filter_congr
    intro id hm
    rw [hmethods id hm]
  unfold findMethod?
  rw [h.type_eq hi]
  simp only [hnamed]
  congr 1
  apply List.find?_congr
  intro id hm
  rw [hmethods id (List.mem_of_mem_filter hm)]

/-- The method that a reference leads to stays the same. -/
theorem Extends.resolveMethod_eq (h : base.Extends catalog) (hc : base.Closed) {ref : MethodRef}
    {id : MethodId} (hr : base.resolveMethod ref = .ok id) :
    catalog.resolveMethod ref = .ok id := by
  unfold resolveMethod at hr ⊢
  obtain ⟨type, htype, hr⟩ := bind_eq_ok_iff.mp hr
  obtain ⟨hagain, hi⟩ := h.resolveType_eq hc htype
  apply bind_eq_ok_iff.mpr
  refine ⟨type, hagain, ?_⟩
  rw [h.findConstructor?_eq hc hi, h.findMethod?_eq hc hi]
  exact hr

/-- A field keeps its slot. -/
theorem Extends.fieldSlot_eq (h : base.Extends catalog) {type : TypeId} {name : String}
    {slot : Nat} (hs : base.fieldSlot type name = .ok slot) :
    catalog.fieldSlot type name = .ok slot := by
  have hi : type.index < base.types.size := by
    apply index_lt_of_type_ne
    intro hnone
    simp [fieldSlot, hnone, default, instInhabitedTypeDefinition.default] at hs
  unfold fieldSlot at hs ⊢
  rw [h.type_eq hi]
  split at hs
  · exact hs
  · cases hs

/-! ## Base types -/

/-- A base type that was found is found again, and it is an old type. -/
theorem Extends.base?_eq (h : base.Extends catalog) (hc : base.Closed) {type parent : TypeId}
    (hb : base.base? type = some parent) :
    catalog.base? type = some parent ∧ parent.index < base.types.size := by
  have hi : type.index < base.types.size := by
    apply index_lt_of_type_ne
    intro hnone
    simp [base?, hnone, default, instInhabitedTypeDefinition.default] at hb
  unfold base? at hb ⊢
  rw [h.type_eq hi]
  obtain ⟨ref, href, hb⟩ := Option.bind_eq_some_iff.mp hb
  cases hr : base.resolveType ref with
  | error e => simp [hr] at hb
  | ok found =>
    obtain ⟨hagain, hlt⟩ := h.resolveType_eq hc hr
    simp only [hr, Option.ite_none_left_eq_some, Option.some.injEq] at hb
    obtain ⟨hne, rfl⟩ := hb
    simp [href, hagain, hne, hlt]

/-- A walk starts with its type. -/
theorem walk_succ (catalog : Catalog) (rounds : Nat) (met : List TypeId) (type : TypeId) :
    ∃ rest, catalog.walk (rounds + 1) met type = type :: rest := by
  unfold walk
  split
  · exact ⟨[], rfl⟩
  · dsimp only
    split
    · exact ⟨[], rfl⟩
    · exact ⟨_, rfl⟩

/-- A walk through base types takes the same way in a catalog with more types, and may go on where
a base type was unknown. -/
theorem Extends.walk_prefix (h : base.Extends catalog) (hc : base.Closed) {rounds more : Nat}
    (hr : rounds ≤ more) (met : List TypeId) (type : TypeId) :
    base.walk rounds met type <+: catalog.walk more met type := by
  induction rounds generalizing more met type with
  | zero => exact List.nil_prefix
  | succ rounds ih =>
    obtain ⟨more, rfl⟩ : ∃ n, more = n + 1 := ⟨more - 1, by omega⟩
    cases hb : base.base? type with
    | none =>
      have hone : base.walk (rounds + 1) met type = [type] := by simp [walk, hb]
      obtain ⟨rest, hrest⟩ := catalog.walk_succ more met type
      rw [hone, hrest]
      simp
    | some parent =>
      have hagain := (h.base?_eq hc hb).1
      simp only [walk, hb, hagain]
      split
      · exact List.prefix_refl _
      · rw [List.prefix_cons_inj]
        exact ih (by omega) _ _

/-- The base types of a type stay, and more can follow only at their end. -/
theorem Extends.ancestry_prefix (h : base.Extends catalog) (hc : base.Closed) (type : TypeId) :
    base.ancestry type <+: catalog.ancestry type :=
  h.walk_prefix hc (Nat.succ_le_succ h.size_types) [] type

/-- A walk along base types passes types of the catalog only. -/
theorem Closed.walk_lt (hc : catalog.Closed) {rounds : Nat} {met : List TypeId} {type : TypeId}
    (hi : type.index < catalog.types.size) {id : TypeId} (hm : id ∈ catalog.walk rounds met type) :
    id.index < catalog.types.size := by
  induction rounds generalizing met type with
  | zero => cases hm
  | succ rounds ih =>
    unfold walk at hm
    split at hm
    · rw [List.mem_singleton.mp hm]
      exact hi
    · rename_i parent hb
      have hparent := ((Extends.refl catalog).base?_eq hc hb).2
      dsimp only at hm
      split at hm
      · rw [List.mem_singleton.mp hm]
        exact hi
      · rcases List.mem_cons.mp hm with rfl | hm
        · exact hi
        · exact ih hparent hm

/-- An old type keeps the methods that implement another one. -/
theorem Extends.implementation?_eq (h : base.Extends catalog) (hc : base.Closed) {type : TypeId}
    (hi : type.index < base.types.size) (name : String) (arity : Nat) :
    catalog.implementation? name arity type = base.implementation? name arity type := by
  unfold implementation?
  rw [h.type_eq hi]
  apply List.find?_congr
  intro id hm
  rw [h.member_eq hc hi (List.mem_append_right _ hm)]

/-- An implementation that was found along the base types is found again. -/
theorem Extends.findOverride?_eq (h : base.Extends catalog) (hc : base.Closed) {type : TypeId}
    {name : String} {arity : Nat} {id : MethodId}
    (hf : base.findOverride? type name arity = some id) :
    catalog.findOverride? type name arity = some id := by
  have hi : type.index < base.types.size := by
    apply index_lt_of_type_ne
    intro hnone
    simp [findOverride?, ancestry, walk, base?, implementation?, hnone, default,
      instInhabitedTypeDefinition.default] at hf
  obtain ⟨rest, hrest⟩ := h.ancestry_prefix hc type
  have hsame : (base.ancestry type).filterMap (catalog.implementation? name arity) =
      (base.ancestry type).filterMap (base.implementation? name arity) := by
    apply List.filterMap_congr
    intro t hm
    exact h.implementation?_eq hc (hc.walk_lt hi hm) name arity
  have hfound : (base.ancestry type).findSome? (catalog.implementation? name arity) = some id := by
    rw [← List.head?_filterMap, hsame, List.head?_filterMap]
    exact hf
  unfold findOverride?
  rw [← hrest, List.findSome?_append, hfound, Option.some_or]

/-- What could be assigned to a type still can. -/
theorem Extends.isAssignable_of (h : base.Extends catalog) (hc : base.Closed)
    {source target : TypeId} (ha : base.isAssignable source target = true) :
    catalog.isAssignable source target = true := by
  unfold isAssignable at ha ⊢
  rw [Bool.or_eq_true] at ha ⊢
  rcases ha with ha | ha
  · left
    have hm := (h.ancestry_prefix hc source).subset (List.contains_iff_mem.mp ha)
    exact List.contains_iff_mem.mpr hm
  · right
    have hi : target.index < base.types.size := by
      apply index_lt_of_type_ne
      intro hnone
      simp [fullName, typeRef, hnone, default, instInhabitedTypeDefinition.default,
        TypeRef.ofNames, TypeRef.fullName] at ha
    have howner := h.assembly_eq (hc.owner _ (mem_types hi))
    simpa only [fullName, typeRef, h.type_eq hi, howner] using ha

/-! ## The entry point -/

/-- The methods of the types of some assemblies, in order. -/
def methodsOf (catalog : Catalog) (assemblies : List Assembly) : List MethodId :=
  assemblies.flatMap fun a => a.types.flatMap fun id => (catalog.type id).methods

/-- The methods of assemblies of the catalog are methods of the catalog. -/
theorem Closed.lt_of_mem_methodsOf (hc : catalog.Closed) {assemblies : List Assembly}
    (ha : ∀ a ∈ assemblies, a ∈ catalog.assemblies) {id : MethodId}
    (hm : id ∈ catalog.methodsOf assemblies) : id.index < catalog.methods.size := by
  obtain ⟨a, hlisted, hm⟩ := List.mem_flatMap.mp hm
  obtain ⟨type, htype, hm⟩ := List.mem_flatMap.mp hm
  have hi := hc.listed a (ha a hlisted) type htype
  exact hc.members _ (mem_types hi) id (List.mem_append_right _ hm)

/-- Old assemblies keep their methods in their order. -/
theorem Extends.methodsOf_eq (h : base.Extends catalog) (hc : base.Closed)
    {assemblies : List Assembly} (ha : ∀ a ∈ assemblies, a ∈ base.assemblies) :
    catalog.methodsOf assemblies = base.methodsOf assemblies := by
  apply List.flatMap_congr
  intro a hlisted
  apply List.flatMap_congr
  intro type htype
  rw [h.type_eq (hc.listed a (ha a hlisted) type htype)]

/-- The method at which programs start stays the first one. -/
theorem Extends.entryPoint?_eq (h : base.Extends catalog) (hc : base.Closed) {id : MethodId}
    (he : base.entryPoint? = some id) : catalog.entryPoint? = some id := by
  obtain ⟨rest, hrest⟩ := exists_append_of_getElem? h.assemblies
  have hlisted : ∀ a ∈ base.assemblies.toList.filter (fun a => !a.isBuiltin),
      a ∈ base.assemblies := by
    intro a ha
    exact Array.mem_toList_iff.mp (List.mem_of_mem_filter ha)
  have hmethods := h.methodsOf_eq hc hlisted
  have hfound : (base.methodsOf (base.assemblies.toList.filter fun a => !a.isBuiltin)).find?
      (fun id => (catalog.method id).isStatic && (catalog.method id).name == "Main") =
        some id := by
    rw [← he]
    apply List.find?_congr
    intro method hm
    rw [h.method_eq (hc.lt_of_mem_methodsOf hlisted hm)]
  have hsplit : catalog.methodsOf (catalog.assemblies.toList.filter fun a => !a.isBuiltin) =
      base.methodsOf (base.assemblies.toList.filter fun a => !a.isBuiltin) ++
        catalog.methodsOf (rest.toList.filter fun a => !a.isBuiltin) := by
    rw [← hmethods, hrest, Array.toList_append, List.filter_append]
    exact List.flatMap_append
  have hentry : catalog.entryPoint? =
      (catalog.methodsOf (catalog.assemblies.toList.filter fun a => !a.isBuiltin)).find?
        (fun id => (catalog.method id).isStatic && (catalog.method id).name == "Main") := rfl
  rw [hentry, hsplit, List.find?_append, hfound, Option.some_or]

end Queries

/-! ## Conservation -/

/-- The second catalog has all that the first one has, unchanged and under the same numbers, and
every query that succeeds on the first one succeeds on the second one with the same answer. -/
structure Conserves (base catalog : Catalog) : Prop extends base.Extends catalog where
  resolveType : ∀ {ref id}, base.resolveType ref = .ok id → catalog.resolveType ref = .ok id
  resolveMethod : ∀ {ref id}, base.resolveMethod ref = .ok id → catalog.resolveMethod ref = .ok id
  fieldSlot : ∀ {type name slot}, base.fieldSlot type name = .ok slot →
    catalog.fieldSlot type name = .ok slot
  findOverride : ∀ {type name arity id}, base.findOverride? type name arity = some id →
    catalog.findOverride? type name arity = some id
  entryPoint : ∀ {id}, base.entryPoint? = some id → catalog.entryPoint? = some id
  /-- A type keeps its base types, nearest first; others may follow them. -/
  ancestry : ∀ type, base.ancestry type <+: catalog.ancestry type
  isAssignable : ∀ {source target}, base.isAssignable source target = true →
    catalog.isAssignable source target = true

/-- An extension gives all answers that a closed catalog gave. -/
theorem Extends.conserves {base catalog : Catalog} (h : base.Extends catalog) (hc : base.Closed) :
    base.Conserves catalog where
  toExtends := h
  resolveType hr := (h.resolveType_eq hc hr).1
  resolveMethod hr := h.resolveMethod_eq hc hr
  fieldSlot hs := h.fieldSlot_eq hs
  findOverride hf := h.findOverride?_eq hc hf
  entryPoint he := h.entryPoint?_eq hc he
  ancestry := h.ancestry_prefix hc
  isAssignable ha := h.isAssignable_of hc ha

end Catalog

/-! ## Machines -/

/-- No program changes the catalog. -/
theorem Machine.Leads.catalog_eq {m m' : Machine} (h : m.Leads m') : m'.catalog = m.catalog := by
  induction h with
  | refl => rfl
  | tail _ hc ih =>
    rw [← ih]
    cases hc <;> rfl

/-- A load leads from a catalog that was reached by loads to another one, also if it fails. -/
theorem Machine.loaded_loadModule {m : Machine} (h : m.catalog.Loaded) (source : ModuleSource) :
    (Outcome.machine (m.loadModule source)).catalog.Loaded := by
  rw [machine_loadModule]
  exact .load source h

open Machine in
/-- An action leaves the catalog as it is unless it loads a module. -/
theorem Action.catalog_run {action : Action} {fuel : Nat} {m : Machine}
    {outcome : Outcome (List Value)} (hr : action.run fuel m = some outcome) :
    outcome.machine.catalog = m.catalog ∨
      ∃ image : Image, outcome.machine.catalog =
        Load.after (Load.addModule image.source m.catalog) := by
  obtain ⟨image, -, hm⟩ | ⟨-, hm⟩ | ⟨type, -, hm⟩ | hleads := Action.run_cases hr
  · right
    exact ⟨image, by rw [hm, Machine.load, machine_loadModule]⟩
  · left
    rw [hm]
    rfl
  · left
    have hmake : Exec.instantiate type m = Exec.store ⟨type, Exec.initialSlots m type⟩ m := rfl
    rw [hm, hmake, Exec.store]
    split <;> rfl
  · exact .inl hleads.catalog_eq

/-- Every action of a host keeps the catalog one that was reached by loads. -/
theorem Action.loaded_run {action : Action} {fuel : Nat} {m : Machine}
    {outcome : Outcome (List Value)} (h : m.catalog.Loaded)
    (hr : action.run fuel m = some outcome) : outcome.machine.catalog.Loaded := by
  rcases Action.catalog_run hr with hsame | ⟨image, hloaded⟩
  · exact hsame ▸ h
  · exact hloaded ▸ .load image.source h

/-- The catalog of every machine that a host gets to was made by loading modules. -/
theorem Attainable.loaded {options : Options} {files : Files} {m : Machine}
    (h : Attainable options files m) : m.catalog.Loaded := by
  induction h with
  | new => exact .library
  | act action fuel _ hr ih => exact Action.loaded_run ih hr
  | edit handle f _ ih => exact ih
  | write text _ ih => exact ih
  | setFiles others _ ih => exact ih

/-- Loading a module, whether it succeeds or fails, changes nothing that a machine had loaded
before, and no answer that it had to a query. -/
theorem load_conserves {m : Machine} (h : m.catalog.Loaded) (source : ModuleSource) :
    m.catalog.Conserves (Outcome.machine (m.loadModule source)).catalog :=
  (Machine.announced_loadModule source m).extension.conserves h.closed

/-- A module with one type and no members. -/
def ModuleSource.ofType (assembly : String) (type : TypeDeclaration) : ModuleSource where
  assembly
  types := [type]
  fields _ := .ok []
  constructors _ := .ok []
  methods _ := .ok []

/-- A type whose base type comes with a later module: its walk of base types goes on. -/
theorem load_conserves_awaited :
    let derived := ModuleSource.ofType "App" ⟨"", "Derived", some ⟨"Lib", "", "Base"⟩⟩
    let parent := ModuleSource.ofType "Lib" ⟨"", "Base", none⟩
    let before := Outcome.machine ((Machine.new {} .empty).loadModule derived)
    let after := Outcome.machine (before.loadModule parent)
    let known := Library.catalog.types.size
    before.catalog.ancestry ⟨known⟩ = [⟨known⟩] ∧
      after.catalog.ancestry ⟨known⟩ = [⟨known⟩, ⟨known + 1⟩] ∧
      before.catalog.Conserves after.catalog := by
  intro derived parent before after known
  have hloaded : before.catalog.Loaded := Machine.loaded_loadModule .library derived
  refine ⟨?_, ?_, load_conserves hloaded parent⟩
  · decide +kernel
  · decide +kernel

end ManagedCode
