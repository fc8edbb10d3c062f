import Mathlib.Data.List.Nodup
import ManagedCode.Proofs.Catalog.Building
import ManagedCode.Proofs.Catalog.Constructors

/-!
# Numbers of a catalog

An assembly lists its types and a type its constructors and methods, all by their numbers. Whatever
is added, these lists hold exactly the numbers that belong there, in the order in which they were
given out. So every number is listed once in the whole catalog, and the catalog mentions no number
that was not given out. This is true of the built-in types and of every catalog that loading modules
makes of them, also where a load fails half way, and so every answer of the catalog is such a number
too.
-/

namespace ManagedCode

/-! ## Lists with an owner -/

/-- Lists have nothing in common if all that one of them holds belongs to its owner alone. -/
theorem nodup_flatMap_of_owner {α β : Type} {owners : List α} {lists : α → List β} (owner : β → α)
    (hn : owners.Nodup) (hl : ∀ a ∈ owners, (lists a).Nodup)
    (ho : ∀ a ∈ owners, ∀ b ∈ lists a, owner b = a) : (owners.flatMap lists).Nodup := by
  apply List.nodup_flatMap.mpr
  refine ⟨hl, hn.imp_of_mem fun {a a'} ha ha' hne b hb hb' => hne ?_⟩
  rw [← ho a ha b hb, ho a' ha' b hb']

/-- What a numbered array has, in the order of the numbers. -/
theorem toList_eq_map_range {α : Type} (xs : Array α) (fallback : α) :
    xs.toList = (List.range xs.size).map fun i => xs.getD i fallback := by
  apply List.ext_getElem
  · simp
  · intro i hi hi'
    have hlt : i < xs.size := by simpa using hi
    simp [hlt]

namespace Catalog

/-! ## Methods and their types -/

/-- The methods and constructors of the catalog in order. -/
def allMethods (catalog : Catalog) : List MethodId :=
  (List.range catalog.methods.size).map MethodId.mk

/-- Every method is declared by a type, and a type lists the constructors and the methods that it
declares. -/
structure Membered (catalog : Catalog) : Prop where
  declaring : ∀ id : MethodId, id.index < catalog.methods.size →
    (catalog.method id).declaringType.index < catalog.types.size
  listed : ∀ type kind, (catalog.type type).listed kind = catalog.allMethods.filter fun id =>
    (catalog.method id).declaringType = type ∧ (catalog.method id).isConstructor = kind

section Membering

variable {catalog changed : Catalog}

/-- The methods of a catalog have the numbers below their count. -/
theorem mem_allMethods {id : MethodId} :
    id ∈ catalog.allMethods ↔ id.index < catalog.methods.size := by
  constructor
  · intro hm
    obtain ⟨index, hindex, rfl⟩ := List.mem_map.mp hm
    exact List.mem_range.mp hindex
  · exact fun hlt => List.mem_map.mpr ⟨id.index, List.mem_range.mpr hlt, rfl⟩

/-- No method is numbered twice. -/
theorem nodup_allMethods (catalog : Catalog) : catalog.allMethods.Nodup :=
  List.nodup_range.map fun _ _ h => congrArg MethodId.index h

/-- What adds no method and changes no list of methods keeps the methods where they belong. -/
theorem Membered.congr (h : catalog.Membered) (hm : changed.methods = catalog.methods)
    (ht : catalog.types.size ≤ changed.types.size)
    (hl : ∀ type kind, (changed.type type).listed kind = (catalog.type type).listed kind) :
    changed.Membered := by
  have hmethod : changed.method = catalog.method := by
    funext id
    rw [Catalog.method, hm, Catalog.method]
  constructor
  · intro id hid
    rw [hm] at hid
    rw [hmethod]
    exact Nat.lt_of_lt_of_le (h.declaring id hid) ht
  · intro type kind
    rw [hl, hmethod, allMethods, hm]
    exact h.listed type kind

/-- A new type lists nothing, as no method is declared by it yet. -/
theorem listed_addType (catalog : Catalog) (assembly : AssemblyId) (nameSpace name : String)
    (base : Option TypeRef) (type : TypeId) (kind : Bool) :
    ((catalog.addType assembly nameSpace name base).2.type type).listed kind =
      (catalog.type type).listed kind := by
  by_cases hnew : type.index = catalog.types.size
  · cases kind <;>
      simp [Catalog.type, Catalog.addType, hnew, TypeDefinition.listed, default,
        instInhabitedTypeDefinition.default]
  · simp only [Catalog.type, Catalog.addType, Array.getD_eq_getD_getElem?, Array.getElem?_push,
      if_neg hnew]

/-- Adding a method does not change the earlier ones. -/
theorem method_addMethod_of_lt {method : Method} {id : MethodId}
    (h : id.index < catalog.methods.size) :
    (catalog.addMethod method).2.method id = catalog.method id := by
  simp [Catalog.method, Catalog.addMethod, Array.getElem?_push, Nat.ne_of_lt h]

/-- The number that is given out next is that of the method that is added. -/
theorem method_addMethod_new (catalog : Catalog) (method : Method) :
    (catalog.addMethod method).2.method ⟨catalog.methods.size⟩ = method := by
  simp [Catalog.method, Catalog.addMethod]

/-- A method that is added is listed once, by its type, as what it is. -/
theorem Membered.addMethod (h : catalog.Membered) {method : Method}
    (hd : method.declaringType.index < catalog.types.size) :
    (catalog.addMethod method).2.Membered where
  declaring id hid := by
    have hsize : (catalog.addMethod method).2.types.size = catalog.types.size := Array.size_modify
    rw [hsize]
    rcases Nat.lt_succ_iff_lt_or_eq.mp (by simpa [Catalog.addMethod] using hid) with hlt | heq
    · rw [method_addMethod_of_lt hlt]
      exact h.declaring id hlt
    · obtain rfl : id = ⟨catalog.methods.size⟩ := congrArg MethodId.mk heq
      rwa [method_addMethod_new]
  listed type kind := by
    have hall : (catalog.addMethod method).2.allMethods =
        catalog.allMethods ++ [⟨catalog.methods.size⟩] := by
      simp [allMethods, Catalog.addMethod, List.range_succ]
    have hold : catalog.allMethods.filter (fun id =>
        ((catalog.addMethod method).2.method id).declaringType = type ∧
          ((catalog.addMethod method).2.method id).isConstructor = kind) =
        (catalog.type type).listed kind := by
      rw [h.listed]
      refine List.filter_congr fun id hm => ?_
      rw [method_addMethod_of_lt (mem_allMethods.mp hm)]
    rw [hall, List.filter_append, hold, List.filter_singleton, method_addMethod_new,
      listed_addMethod catalog method hd]
    simp

end Membering

/-! ## Adding -/

/-- Assemblies list their types, types list their methods, and fields are declared by types of the
catalog. -/
structure Numbered (catalog : Catalog) : Prop where
  indexed : catalog.Indexed
  membered : catalog.Membered
  fields : ∀ type, ∀ field ∈ (catalog.type type).fields,
    field.declaringType.index < catalog.types.size

section Adding

variable {catalog : Catalog}

/-- An empty catalog has nothing to number. -/
theorem numbered_empty : Numbered .empty where
  indexed := indexed_empty
  membered := ⟨fun _ h => absurd h (Nat.not_lt_zero _), fun _ kind => by cases kind <;> rfl⟩
  fields _ _ h := nomatch h

/-- The numbers stay in order when an assembly is added. -/
theorem Numbered.addAssembly (h : catalog.Numbered) (name : String) (isBuiltin : Bool) :
    (catalog.addAssembly name isBuiltin).2.Numbered where
  indexed := h.indexed.addAssembly name isBuiltin
  membered := h.membered.congr rfl (Nat.le_refl _) fun _ _ => rfl
  fields := h.fields

/-- The numbers stay in order when a type of a known assembly is added. -/
theorem Numbered.addType (h : catalog.Numbered) {assembly : AssemblyId}
    (ha : assembly.index < catalog.assemblies.size) (nameSpace name : String)
    (base : Option TypeRef) : (catalog.addType assembly nameSpace name base).2.Numbered := by
  have hsize : (catalog.addType assembly nameSpace name base).2.types.size =
      catalog.types.size + 1 := Array.size_push _
  refine ⟨h.indexed.addType ha nameSpace name base, ?_, ?_⟩
  · apply Membered.congr h.membered (by rfl) (by omega)
    exact catalog.listed_addType assembly nameSpace name base
  · intro type field hf
    rw [hsize]
    simp only [Catalog.type, Catalog.addType, Array.getD_eq_getD_getElem?,
      Array.getElem?_push] at hf
    split at hf
    · cases hf
    · have hold := h.fields type field (by simpa only [Catalog.type,
        Array.getD_eq_getD_getElem?] using hf)
      omega

/-- The numbers stay in order when a field of a known type is added. -/
theorem Numbered.addField (h : catalog.Numbered) (type : TypeId) {declaring : TypeId}
    (hd : declaring.index < catalog.types.size) (name : String) (fieldType : Option TypeRef) :
    (catalog.addField type declaring name fieldType).Numbered := by
  have hsize : (catalog.addField type declaring name fieldType).types.size =
      catalog.types.size := Array.size_modify
  refine ⟨h.indexed.modifyType type fun _ => rfl, ?_, ?_⟩
  · apply Membered.congr h.membered (by rfl) hsize.ge
    exact catalog.listed_addField type declaring name fieldType
  · intro other field hf
    have hcases : field ∈ (catalog.type other).fields ∨ field = ⟨name, declaring, fieldType⟩ := by
      simp only [Catalog.type, Catalog.addField, Array.getD_eq_getD_getElem?,
        Array.getElem?_modify] at hf ⊢
      split at hf
      · cases ht : catalog.types[other.index]? with
        | none => simp [ht, default, instInhabitedTypeDefinition.default] at hf
        | some t => simpa [ht] using hf
      · exact .inl hf
    rw [hsize]
    rcases hcases with hf | rfl
    · exact h.fields other field hf
    · exact hd

/-- The numbers stay in order when a method of a known type is added. -/
theorem Numbered.addMethod (h : catalog.Numbered) {method : Method}
    (hd : method.declaringType.index < catalog.types.size) :
    (catalog.addMethod method).2.Numbered where
  indexed := h.indexed.addMethod method
  membered := h.membered.addMethod hd
  fields type field hf := by
    have hsize : (catalog.addMethod method).2.types.size = catalog.types.size := Array.size_modify
    rw [Load.fields_addMethod] at hf
    rw [hsize]
    exact h.fields type field hf

/-! ## Loading -/

/-- Announcing a module is adding an assembly and types. -/
theorem Numbered.announce (h : catalog.Numbered) (source : ModuleSource) :
    (catalog.announce source).Numbered := by
  have hkeeps : Load.Keeps (fun c => c.Numbered ∧ catalog.assemblies.size < c.assemblies.size)
      (source.types.mapM (Load.addType ⟨catalog.assemblies.size⟩)) := by
    apply Load.keeps_mapM
    intro type _ c hc
    refine ⟨hc.1.addType hc.2 type.nameSpace type.name type.base, ?_⟩
    have hsize : (c.addType ⟨catalog.assemblies.size⟩ type.nameSpace type.name
        type.base).2.assemblies.size = c.assemblies.size := Array.size_modify
    exact hsize ▸ hc.2
  have hadded := h.addAssembly source.assembly false
  have hannounced := hkeeps _ ⟨hadded, by simp [Catalog.addAssembly]⟩
  rw [Load.mapM_addType_announce] at hannounced
  exact hannounced.1

/-- Loading a module keeps the numbers in order, whether it succeeds or fails. -/
theorem Numbered.addModule (h : catalog.Numbered) (source : ModuleSource) :
    (Load.after (Load.addModule source catalog)).Numbered := by
  have hstable : Load.Stable (catalog.newTypes source)
      fun c => Announced catalog source c ∧ c.Numbered := by
    constructor
    · intro c hc id hid declaring hd name fieldType
      refine ⟨hc.1.addField hid declaring name fieldType, hc.2.addField id ?_ name fieldType⟩
      rw [hc.1.size_types]
      exact (mem_newTypes.mp hd).2
    · intro c hc method hd
      refine ⟨hc.1.addMethod hd, hc.2.addMethod ?_⟩
      rw [hc.1.size_types]
      exact (mem_newTypes.mp hd).2
  exact (hstable.addModule ⟨announced_announce catalog source, h.announce source⟩).2

end Adding

/-! ## Every number once -/

/-- Every number that was given out is listed once, where it belongs, and every number that the
catalog mentions was given out. -/
structure Accounted (catalog : Catalog) : Prop extends catalog.Closed where
  /-- Of all assemblies only that of a type lists it, and does so once. -/
  typeOnce : ∀ id : TypeId, id.index < catalog.types.size →
    (catalog.assemblies.toList.flatMap fun a => a.types).count id = 1 ∧
      id ∈ (catalog.assembly (catalog.type id).assembly).types
  /-- Of all types only that which declares a method lists it, once and under its kind. -/
  methodOnce : ∀ id : MethodId, id.index < catalog.methods.size →
    (catalog.types.toList.flatMap fun t => t.constructors ++ t.methods).count id = 1 ∧
      id ∈ (catalog.type (catalog.method id).declaringType).listed (catalog.method id).isConstructor
  declaring : ∀ method ∈ catalog.methods, method.declaringType.index < catalog.types.size
  fields : ∀ t ∈ catalog.types, ∀ field ∈ t.fields,
    field.declaringType.index < catalog.types.size

section Accounting

variable {catalog : Catalog}

/-- No type is numbered twice. -/
theorem nodup_allTypes (catalog : Catalog) : catalog.allTypes.Nodup :=
  List.nodup_range.map fun _ _ h => congrArg TypeId.index h

/-- Every assembly of a catalog was numbered. -/
theorem exists_of_mem_assemblies {a : Assembly} (h : a ∈ catalog.assemblies) :
    ∃ id : AssemblyId, id.index < catalog.assemblies.size ∧ catalog.assembly id = a := by
  obtain ⟨i, hi, rfl⟩ := Array.mem_iff_getElem.mp h
  exact ⟨⟨i⟩, hi, by simp [Catalog.assembly, hi]⟩

/-- Every type of a catalog was numbered. -/
theorem exists_of_mem_types {t : TypeDefinition} (h : t ∈ catalog.types) :
    ∃ id : TypeId, id.index < catalog.types.size ∧ catalog.type id = t := by
  obtain ⟨i, hi, rfl⟩ := Array.mem_iff_getElem.mp h
  exact ⟨⟨i⟩, hi, by simp [Catalog.type, hi]⟩

/-- Every method of a catalog was numbered. -/
theorem exists_of_mem_methods {method : Method} (h : method ∈ catalog.methods) :
    ∃ id : MethodId, id.index < catalog.methods.size ∧ catalog.method id = method := by
  obtain ⟨i, hi, rfl⟩ := Array.mem_iff_getElem.mp h
  exact ⟨⟨i⟩, hi, by simp [Catalog.method, hi]⟩

/-- An assembly lists exactly the types that were declared in it. -/
theorem Indexed.mem_types_iff (h : catalog.Indexed) {assembly : AssemblyId} {id : TypeId} :
    id ∈ (catalog.assembly assembly).types ↔
      id.index < catalog.types.size ∧ (catalog.type id).assembly = assembly := by
  rw [h.listed, List.mem_filter, mem_allTypes, decide_eq_true_iff]

/-- A type lists exactly the constructors, or methods, that were declared in it. -/
theorem Membered.mem_listed_iff (h : catalog.Membered) {type : TypeId} {kind : Bool}
    {id : MethodId} :
    id ∈ (catalog.type type).listed kind ↔ id.index < catalog.methods.size ∧
      (catalog.method id).declaringType = type ∧ (catalog.method id).isConstructor = kind := by
  rw [h.listed, List.mem_filter, mem_allMethods, decide_eq_true_iff]

/-- The constructors and methods of a type are all that was declared in it. -/
theorem Membered.mem_members_iff (h : catalog.Membered) {type : TypeId} {id : MethodId} :
    id ∈ (catalog.type type).constructors ++ (catalog.type type).methods ↔
      id.index < catalog.methods.size ∧ (catalog.method id).declaringType = type := by
  have hconstructors : id ∈ (catalog.type type).constructors ↔ id.index < catalog.methods.size ∧
      (catalog.method id).declaringType = type ∧ (catalog.method id).isConstructor = true :=
    @Membered.mem_listed_iff catalog h type true id
  have hmethods : id ∈ (catalog.type type).methods ↔ id.index < catalog.methods.size ∧
      (catalog.method id).declaringType = type ∧ (catalog.method id).isConstructor = false :=
    @Membered.mem_listed_iff catalog h type false id
  rw [List.mem_append, hconstructors, hmethods]
  cases (catalog.method id).isConstructor <;> simp

/-- A catalog whose numbers are in order is closed. -/
theorem Numbered.closed (h : catalog.Numbered) : catalog.Closed where
  listed a ha id hm := by
    obtain ⟨assembly, -, rfl⟩ := exists_of_mem_assemblies ha
    exact (h.indexed.mem_types_iff.mp hm).1
  owner t ht := by
    obtain ⟨id, hid, rfl⟩ := exists_of_mem_types ht
    exact h.indexed.owner id hid
  members t ht id hm := by
    obtain ⟨type, -, rfl⟩ := exists_of_mem_types ht
    exact (h.membered.mem_members_iff.mp hm).1

/-- No type is listed twice, by one assembly or by two. -/
theorem Indexed.nodup_types (h : catalog.Indexed) :
    (catalog.assemblies.toList.flatMap fun a => a.types).Nodup := by
  have hall : catalog.assemblies.toList.flatMap (fun a => a.types) =
      ((List.range catalog.assemblies.size).map AssemblyId.mk).flatMap fun id =>
        (catalog.assembly id).types := by
    rw [toList_eq_map_range catalog.assemblies default, List.flatMap_map, List.flatMap_map]
    rfl
  rw [hall]
  apply nodup_flatMap_of_owner fun id => (catalog.type id).assembly
  · exact List.nodup_range.map fun _ _ h => congrArg AssemblyId.index h
  · intro assembly _
    rw [h.listed]
    exact catalog.nodup_allTypes.filter _
  · intro assembly _ id hm
    exact (h.mem_types_iff.mp hm).2

/-- No method is listed twice, by one type or by two. -/
theorem Membered.nodup_members (h : catalog.Membered) :
    (catalog.types.toList.flatMap fun t => t.constructors ++ t.methods).Nodup := by
  have hall : catalog.types.toList.flatMap (fun t => t.constructors ++ t.methods) =
      catalog.allTypes.flatMap fun type =>
        (catalog.type type).listed true ++ (catalog.type type).listed false := by
    rw [toList_eq_map_range catalog.types default, allTypes, List.flatMap_map, List.flatMap_map]
    rfl
  rw [hall]
  apply nodup_flatMap_of_owner fun id => (catalog.method id).declaringType
  · exact catalog.nodup_allTypes
  · intro type _
    apply List.Nodup.append
    · rw [h.listed]
      exact catalog.nodup_allMethods.filter _
    · rw [h.listed]
      exact catalog.nodup_allMethods.filter _
    · intro id hm hm'
      have hkind := (h.mem_listed_iff.mp hm).2.2
      rw [(h.mem_listed_iff.mp hm').2.2] at hkind
      cases hkind
  · intro type _ id hm
    rcases List.mem_append.mp hm with hm | hm
    · exact (h.mem_listed_iff.mp hm).2.1
    · exact (h.mem_listed_iff.mp hm).2.1

/-- Where the lists hold what belongs there, every number is accounted for. -/
theorem Numbered.accounted (h : catalog.Numbered) : catalog.Accounted where
  toClosed := h.closed
  typeOnce id hid := by
    have hm : id ∈ (catalog.assembly (catalog.type id).assembly).types :=
      h.indexed.mem_types_iff.mpr ⟨hid, rfl⟩
    have hlisted := Array.mem_toList_iff.mpr (mem_assemblies (h.indexed.owner id hid))
    exact ⟨List.count_eq_one_of_mem h.indexed.nodup_types (List.mem_flatMap.mpr ⟨_, hlisted, hm⟩),
      hm⟩
  methodOnce id hid := by
    have hm := h.membered.mem_members_iff.mpr ⟨hid, rfl⟩
    have hlisted := Array.mem_toList_iff.mpr (mem_types (h.membered.declaring id hid))
    exact ⟨List.count_eq_one_of_mem h.membered.nodup_members
      (List.mem_flatMap.mpr ⟨_, hlisted, hm⟩), h.membered.mem_listed_iff.mpr ⟨hid, rfl, rfl⟩⟩
  declaring method hm := by
    obtain ⟨id, hid, rfl⟩ := exists_of_mem_methods hm
    exact h.membered.declaring id hid
  fields t ht := by
    obtain ⟨id, -, rfl⟩ := exists_of_mem_types ht
    exact h.fields id

end Accounting

/-! ## Answers -/

/-- Every number that the catalog answers with was given out. -/
structure Answers (catalog : Catalog) : Prop where
  findAssembly : ∀ {name id}, catalog.findAssembly? name = some id →
    id.index < catalog.assemblies.size
  resolveType : ∀ {ref id}, catalog.resolveType ref = .ok id → id.index < catalog.types.size
  resolveMethod : ∀ {ref id}, catalog.resolveMethod ref = .ok id → id.index < catalog.methods.size
  base : ∀ {type id}, catalog.base? type = some id → id.index < catalog.types.size
  ancestry : ∀ {type}, type.index < catalog.types.size → ∀ id ∈ catalog.ancestry type,
    id.index < catalog.types.size
  findOverride : ∀ {type name arity id}, catalog.findOverride? type name arity = some id →
    id.index < catalog.methods.size
  entryPoint : ∀ {id}, catalog.entryPoint? = some id → id.index < catalog.methods.size

section Answering

variable {catalog : Catalog}

/-- A method that is found by name is one of its type. -/
theorem mem_of_findMethod? {type : TypeId} {name : String} {arity : Nat} {id : MethodId}
    (h : catalog.findMethod? type name arity = some id) : id ∈ (catalog.type type).methods := by
  rcases Option.or_eq_some_iff.mp h with h | ⟨-, h⟩
  · exact List.mem_of_mem_filter (List.mem_of_find?_eq_some h)
  · exact List.mem_of_mem_filter (List.mem_of_head? h)

/-- A reference leads to a method that was numbered. -/
theorem Closed.lt_of_resolveMethod (hc : catalog.Closed) {ref : MethodRef} {id : MethodId}
    (h : catalog.resolveMethod ref = .ok id) : id.index < catalog.methods.size := by
  obtain ⟨type, -, h⟩ := bind_eq_ok_iff.mp h
  by_cases hk : ref.isConstructor = true
  · simp only [if_pos hk] at h
    split at h
    · rename_i hfound
      cases h
      exact hc.lt_of_mem_members (List.mem_append_left _ (List.mem_of_find?_eq_some hfound))
    · cases h
  · simp only [if_neg hk] at h
    split at h
    · rename_i hfound
      cases h
      exact hc.lt_of_mem_members (List.mem_append_right _ (mem_of_findMethod? hfound))
    · cases h

/-- An implementation that is found was numbered. -/
theorem Closed.lt_of_findOverride? (hc : catalog.Closed) {type : TypeId} {name : String}
    {arity : Nat} {id : MethodId} (h : catalog.findOverride? type name arity = some id) :
    id.index < catalog.methods.size := by
  obtain ⟨supplier, -, h⟩ := List.exists_of_findSome?_eq_some h
  exact hc.lt_of_mem_members (List.mem_append_right _ (List.mem_of_find?_eq_some h))

/-- A closed catalog answers with numbers that were given out. -/
theorem Closed.answers (hc : catalog.Closed) : catalog.Answers where
  findAssembly h := ((Extends.refl catalog).findAssembly?_eq h).2
  resolveType h := ((Extends.refl catalog).resolveType_eq hc h).2
  resolveMethod h := hc.lt_of_resolveMethod h
  base h := ((Extends.refl catalog).base?_eq hc h).2
  ancestry hi _ hm := hc.walk_lt hi hm
  findOverride h := hc.lt_of_findOverride? h
  entryPoint h := by
    apply hc.lt_of_mem_methodsOf _ (List.mem_of_find?_eq_some h)
    intro a ha
    exact Array.mem_toList_iff.mp (List.mem_of_mem_filter ha)

end Answering
end Catalog

/-! ## The built-in types -/

namespace Library

open Catalog

/-- A catalog in order to whose type members may be added, and to whose assembly types. -/
structure Extensible (assembly : AssemblyId) (type : TypeId) (c : Catalog) : Prop where
  numbered : c.Numbered
  assembly : assembly.index < c.assemblies.size
  type : type.index < c.types.size

/-- The built-in fields of a type can be added one after the other. -/
theorem Extensible.foldl_addField {assembly : AssemblyId} {type : TypeId} {c : Catalog}
    (h : Extensible assembly type c) (fields : List (String × TypeRef)) :
    Extensible assembly type (fields.foldl
      (fun c (name, fieldType) => c.addField type type name (some fieldType)) c) := by
  refine List.foldlRecOn fields _ h fun c h (name, fieldType) _ => ?_
  exact ⟨h.numbered.addField type h.type name fieldType, h.assembly,
    Array.size_modify.symm ▸ h.type⟩

/-- The built-in members of a type can be added one after the other. -/
theorem Extensible.foldl_addMethod {assembly : AssemblyId} {type : TypeId} {c : Catalog}
    (h : Extensible assembly type c) (members : List Member) :
    Extensible assembly type
      (members.foldl (fun c member => (c.addMethod (member.toMethod type)).2) c) := by
  refine List.foldlRecOn members _ h fun c h member _ => ?_
  exact ⟨h.numbered.addMethod h.type, h.assembly, Array.size_modify.symm ▸ h.type⟩

/-- Adding a built-in type with its fields and members keeps the numbers in order. -/
theorem extensible_addType {c : Catalog} (h : c.Numbered) {assembly : AssemblyId}
    (ha : assembly.index < c.assemblies.size) (entry : TypeEntry) :
    Extensible assembly ⟨c.types.size⟩ (addType assembly c entry) := by
  have hadded (base : Option TypeRef) : Extensible assembly ⟨c.types.size⟩
      (c.addType assembly entry.nameSpace entry.name base).2 :=
    ⟨h.addType ha _ _ _, Array.size_modify.symm ▸ ha, by simp [Catalog.addType]⟩
  exact ((hadded _).foldl_addField entry.fields).foldl_addMethod entry.members

/-- The numbers of the built-in types are in order. -/
theorem numbered_catalog : Library.catalog.Numbered := by
  have hcore := numbered_empty.addAssembly coreAssembly true
  have hall := List.foldlRecOn types (addType ⟨0⟩)
    (motive := fun c => c.Numbered ∧ 0 < c.assemblies.size)
    ⟨hcore, by simp [Catalog.addAssembly]⟩ fun c hc entry _ => by
      have hadded := extensible_addType hc.1 hc.2 entry
      exact ⟨hadded.numbered, hadded.assembly⟩
  exact hall.1

end Library
end ManagedCode
