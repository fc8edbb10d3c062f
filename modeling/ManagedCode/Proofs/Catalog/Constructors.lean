import Mathlib.Algebra.Group.Nat.Defs
import ManagedCode.Proofs.Catalog.Inheriting

/-!
# The constructors of a declared type

A load gives a type the constructors that the module declares for it, in the order in which they are
declared. What is kept of each is its parameter types, its body and whether it takes a receiver, but
not its name, so a reference to a constructor leads to the first entry with its parameter types,
whatever it is called and whether or not it constructs anything.
-/

namespace ManagedCode

/-- The constructors of a type, or its methods. -/
def TypeDefinition.listed (type : TypeDefinition) (constructors : Bool) : List MethodId :=
  if constructors then type.constructors else type.methods

/-- What a load makes of a constructor that is declared for a type. -/
def MethodDeclaration.asConstructor (declaration : MethodDeclaration) (type : TypeId) : Method where
  declaringType := type
  isStatic := declaration.signature.isStatic
  parameters := declaration.signature.parameters
  body := declaration.body
  kind := .constructor

namespace Catalog

/-- The constructors of a type in order. -/
def constructorsOf (catalog : Catalog) (type : TypeId) : List Method :=
  (catalog.type type).constructors.map catalog.method

section Members

variable {base catalog : Catalog} {type : TypeId}

/-- The constructor that a search finds is the first one with the parameter types. -/
theorem map_findConstructor? (catalog : Catalog) (type : TypeId) (parameters : List TypeRef) :
    (catalog.findConstructor? type parameters).map catalog.method =
      (catalog.constructorsOf type).find? fun method => method.parameters == parameters := by
  rw [constructorsOf, List.find?_map]
  rfl

/-- The constructors of a known type are as they were. -/
theorem Extends.constructorsOf_eq (h : base.Extends catalog) (hc : base.Closed)
    (hi : type.index < base.types.size) :
    catalog.constructorsOf type = base.constructorsOf type := by
  rw [constructorsOf, constructorsOf, h.type_eq hi]
  apply List.map_congr_left
  intro id hm
  exact h.member_eq hc hi (List.mem_append_left _ hm)

/-- A constructor that a type lists has been given out. -/
theorem Closed.constructor_lt (hc : catalog.Closed) {id : MethodId}
    (hm : id ∈ (catalog.type type).constructors) : id.index < catalog.methods.size :=
  hc.lt_of_mem_members (List.mem_append_left _ hm)

/-- A field does not change which constructors and methods a type lists. -/
theorem listed_addField (catalog : Catalog) (changed declaring : TypeId) (name : String)
    (fieldType : Option TypeRef) (type : TypeId) (kind : Bool) :
    ((catalog.addField changed declaring name fieldType).type type).listed kind =
      (catalog.type type).listed kind := by
  simp only [Catalog.type, Catalog.addField, Array.getD_eq_getD_getElem?, Array.getElem?_modify]
  split
  · cases catalog.types[type.index]? <;> rfl
  · rfl

/-- A new method is the last one in the list of its kind of its type. -/
theorem listed_addMethod (catalog : Catalog) (method : Method)
    (hd : method.declaringType.index < catalog.types.size) (type : TypeId) (kind : Bool) :
    ((catalog.addMethod method).2.type type).listed kind = (catalog.type type).listed kind ++
      if method.declaringType = type ∧ method.isConstructor = kind then [⟨catalog.methods.size⟩]
      else [] := by
  by_cases ht : method.declaringType = type
  · subst ht
    cases hk : method.isConstructor <;> cases kind <;>
      simp [Catalog.type, Catalog.addMethod, Array.getElem_modify, hd, hk, TypeDefinition.listed]
  · have hindex : method.declaringType.index ≠ type.index := fun h => ht (congrArg TypeId.mk h)
    simp [Catalog.type, Catalog.addMethod, Array.getElem?_modify, hindex, ht]

/-- A constructor that is added comes last among those of its type, any other method does not count.
-/
theorem constructors_addMethod (catalog : Catalog) (method : Method)
    (hi : method.declaringType.index < catalog.types.size) (type : TypeId) :
    ((catalog.addMethod method).2.type type).constructors = (catalog.type type).constructors ++
      if type = method.declaringType ∧ method.isConstructor then [⟨catalog.methods.size⟩]
      else [] := by
  simpa only [TypeDefinition.listed, if_true, eq_comm (a := type)] using
    catalog.listed_addMethod method hi type true

/-- Adding a method changes the constructors of its type at most, by itself at their end. -/
theorem constructorsOf_addMethod (hc : catalog.Closed) (method : Method)
    (hi : method.declaringType.index < catalog.types.size) (type : TypeId) :
    (catalog.addMethod method).2.constructorsOf type = catalog.constructorsOf type ++
      if type = method.declaringType ∧ method.isConstructor then [method] else [] := by
  have hold : ∀ id ∈ (catalog.type type).constructors,
      (catalog.addMethod method).2.method id = catalog.method id := by
    intro id hm
    have hlt := hc.constructor_lt hm
    simp [Catalog.method, Catalog.addMethod, Array.getElem?_push, Nat.ne_of_lt hlt]
  have hnew : (catalog.addMethod method).2.method ⟨catalog.methods.size⟩ = method := by
    simp [Catalog.method, Catalog.addMethod]
  rw [constructorsOf, constructorsOf, constructors_addMethod catalog method hi, List.map_append,
    List.map_congr_left hold]
  split
  · rw [List.map_singleton, hnew]
  · rfl

end Members

end Catalog

namespace Load

/-- Constructors were added to one type, and to no other type. -/
structure Constructs (id : TypeId) (added : List Method) (before after : Catalog) : Prop where
  closed : after.Closed
  size : after.types.size = before.types.size
  constructors : ∀ type, after.constructorsOf type =
    before.constructorsOf type ++ if type = id then added else []

section Constructing

variable {id : TypeId} {added more : List Method} {before middle after : Catalog}
  {source : ModuleSource}

/-- No constructors come where nothing is added. -/
theorem Constructs.refl (id : TypeId) (hc : before.Closed) : Constructs id [] before before :=
  ⟨hc, rfl, fun _ => by simp⟩

/-- Constructors that come in two stages come in order. -/
theorem Constructs.trans (h : Constructs id added before middle)
    (h' : Constructs id more middle after) : Constructs id (added ++ more) before after where
  closed := h'.closed
  size := h'.size.trans h.size
  constructors := by
    intro type
    rw [h'.constructors, h.constructors, List.append_assoc]
    split
    · rfl
    · rfl

/-- A method of a type is added as a constructor or not at all, as far as constructors go. -/
theorem constructs_addMethod (hc : before.Closed) (hi : id.index < before.types.size)
    {kind : MethodKind} {declaration : MethodDeclaration}
    (h : addMethod id kind declaration before = .ok () after) :
    Constructs id (if kind = .constructor then [declaration.asConstructor id] else []) before
      after := by
  cases h
  refine ⟨hc.addMethod _, by simp [Catalog.addMethod], fun type => ?_⟩
  rw [Catalog.constructorsOf_addMethod hc _ hi]
  cases kind with
  | constructor => simp [Method.isConstructor, MethodDeclaration.asConstructor]
  | method => simp [Method.isConstructor]

/-- The constructors of some declarations come in their order. -/
theorem constructs_forM (kind : MethodDeclaration → MethodKind)
    {declarations : List MethodDeclaration} (hc : before.Closed)
    (hi : id.index < before.types.size)
    (h : declarations.forM (fun d => addMethod id (kind d) d) before = .ok () after) :
    Constructs id (declarations.flatMap fun d =>
      if kind d = .constructor then [d.asConstructor id] else []) before after := by
  induction declarations generalizing before with
  | nil =>
    cases h
    exact .refl id hc
  | cons declaration declarations ih =>
    obtain ⟨_, middle, hfirst, hrest⟩ := Exec.sequence_eq_ok_iff.mp h
    have hadded := constructs_addMethod hc hi hfirst
    exact hadded.trans (ih hadded.closed (hadded.size ▸ hi) hrest)

/-- Adding the members of a declared type adds the constructors that it declares. -/
theorem constructs_addMembers {type : TypeDeclaration} (hc : before.Closed)
    (hi : id.index < before.types.size) (h : addMembers source type id before = .ok () after) :
    ∃ own, source.constructors type = .ok own ∧
      Constructs id (own.map (·.asConstructor id)) before after := by
  obtain ⟨own, _, hown, hconstructors⟩ := Exec.sequence_eq_ok_iff.mp h
  obtain ⟨hdeclares, rfl⟩ := declared_eq_ok hown
  obtain ⟨_, middle, hfirst, hmethods⟩ := Exec.sequence_eq_ok_iff.mp hconstructors
  obtain ⟨methods, _, hlisted, hrest⟩ := Exec.sequence_eq_ok_iff.mp hmethods
  obtain ⟨-, rfl⟩ := declared_eq_ok hlisted
  have hadded := constructs_forM (fun _ => .constructor) hc hi hfirst
  have hothers := constructs_forM
    (fun m => .method m.name m.signature.returnType m.isAbstract m.isVirtual) hadded.closed
    (hadded.size ▸ hi) hrest
  have hnone : (methods.flatMap fun m =>
      if MethodKind.method m.name m.signature.returnType m.isAbstract m.isVirtual = .constructor
      then [m.asConstructor id] else []) = [] := by
    rw [List.flatMap_eq_nil_iff]
    exact fun _ _ => rfl
  have hall := hadded.trans hothers
  rw [hnone, List.append_nil] at hall
  simp only [if_true, ← List.map_eq_flatMap] at hall
  exact ⟨own, hdeclares, hall⟩

/-- The constructors of the types whose members a load adds, if none of them is met twice. -/
theorem constructors_of_forM {todo : List (TypeDeclaration × TypeId)} (hc : before.Closed)
    (ht : ∀ pair ∈ todo, pair.2.index < before.types.size) (hd : (todo.map Prod.snd).Nodup)
    (h : todo.forM (fun pair => addMembers source pair.1 pair.2) before = .ok () after) :
    (∀ pair ∈ todo, ∃ own, source.constructors pair.1 = .ok own ∧
      after.constructorsOf pair.2 =
        before.constructorsOf pair.2 ++ own.map (·.asConstructor pair.2)) ∧
      ∀ other ∉ todo.map Prod.snd, after.constructorsOf other = before.constructorsOf other := by
  induction todo generalizing before with
  | nil =>
    cases h
    simp
  | cons pair todo ih =>
    obtain ⟨_, middle, hfirst, hrest⟩ := Exec.sequence_eq_ok_iff.mp h
    obtain ⟨hpair, htodo⟩ := List.forall_mem_cons.mp ht
    rw [List.map_cons, List.nodup_cons] at hd
    obtain ⟨own, hown, hadded⟩ := constructs_addMembers hc hpair hfirst
    obtain ⟨hlater, hothers⟩ := ih hadded.closed (by rwa [hadded.size]) hd.2 hrest
    constructor
    · intro other hm
      rcases List.mem_cons.mp hm with rfl | hm
      · refine ⟨own, hown, ?_⟩
        rw [hothers _ hd.1, hadded.constructors, if_pos rfl]
      · have hne : other.2 ≠ pair.2 := fun heq => hd.1 (heq ▸ List.mem_map_of_mem hm)
        obtain ⟨own, hown, hconstructors⟩ := hlater other hm
        refine ⟨own, hown, ?_⟩
        rw [hconstructors, hadded.constructors, if_neg hne, List.append_nil]
    · intro other hm
      rw [List.map_cons, List.mem_cons, not_or] at hm
      rw [hothers other hm.2, hadded.constructors, if_neg hm.1, List.append_nil]

end Constructing

/-- A catalog in order whose types have given constructors. -/
structure Bare (size : Nat) (constructors : TypeId → List MethodId) (catalog : Catalog) : Prop where
  closed : catalog.Closed
  size_types : catalog.types.size = size
  listed : ∀ type, (catalog.type type).constructors = constructors type

/-- Fields come without constructors. -/
theorem keeps_constructors_addFields {size : Nat} {constructors : TypeId → List MethodId}
    (source : ModuleSource) (types : List (TypeDeclaration × TypeId)) (id : TypeId)
    (ancestor : TypeDeclaration) :
    Keeps (Bare size constructors) (addFields source types id ancestor) := by
  refine (keeps_declared _).bind fun fields catalog h => ?_
  show Bare size constructors (fields.foldl _ catalog)
  induction fields generalizing catalog with
  | nil => exact h
  | cons field fields ih =>
    refine ih _ ⟨h.closed.addField _ _ _ _, ?_, fun type => ?_⟩
    · rw [← h.size_types]
      simp [Catalog.addField]
    · exact (catalog.listed_addField _ _ _ _ type true).trans (h.listed type)

/-- After a load that succeeds, a type has the constructors that the module declares for it. -/
theorem constructors_addModule {source : ModuleSource} {base catalog : Catalog}
    {assembly : AssemblyId} (hb : base.Closed)
    (h : addModule source base = .ok assembly catalog) {type : TypeDeclaration} {id : TypeId}
    (ht : (type, id) ∈ base.numbered source) :
    ∃ own, source.constructors type = .ok own ∧
      catalog.constructorsOf id = own.map (·.asConstructor id) := by
  obtain ⟨_, -, hload⟩ | ⟨-, hload⟩ := addModule_cases source base
  · rw [hload] at h
    cases h
  · rw [hload] at h
    obtain ⟨_, filled, hfilled, hdone⟩ := Exec.sequence_eq_ok_iff.mp h
    cases hdone
    obtain ⟨_, laid, hlaid, hmembers⟩ := Exec.sequence_eq_ok_iff.mp hfilled
    have hkeeps : Keeps (Bare (base.announce source).types.size
          fun type => ((base.announce source).type type).constructors)
        ((base.numbered source).forM fun pair =>
          (lineage source.types source.assembly pair.1).forM
            (addFields source (base.numbered source) pair.2)) :=
      keeps_forM fun pair _ => keeps_forM fun ancestor _ =>
        keeps_constructors_addFields source _ pair.2 ancestor
    have hbare := hkeeps _ ⟨hb.announce source, rfl, fun _ => rfl⟩
    rw [Catalog.numbered, hlaid, after] at hbare
    have hinside : ∀ pair ∈ base.numbered source, pair.2.index < laid.types.size := by
      intro pair hpair
      rw [hbare.size_types, Catalog.size_types_announce]
      exact (Catalog.mem_newTypes.mp (List.of_mem_zip hpair).2).2
    have hnodup : ((base.numbered source).map Prod.snd).Nodup := by
      rw [Catalog.map_snd_numbered]
      exact Catalog.nodup_newTypes base source
    obtain ⟨hconstructors, -⟩ := constructors_of_forM hbare.closed hinside hnodup hmembers
    obtain ⟨own, hown, hid⟩ := hconstructors _ ht
    have hnone : laid.constructorsOf id = [] := by
      rw [Catalog.constructorsOf, hbare.listed, Catalog.type_announce ht]
      rfl
    rw [hnone, List.nil_append] at hid
    exact ⟨own, hown, hid⟩

end Load

namespace Catalog

/-- A reference to a constructor leads to the first one with its parameter types. -/
theorem map_resolveMethod_constructor {catalog : Catalog} {ref : MethodRef} {type : TypeId}
    (hk : ref.isConstructor = true) (hr : catalog.resolveType ref.declaringType = .ok type) :
    (catalog.resolveMethod ref).toOption.map catalog.method =
      (catalog.constructorsOf type).find? fun method =>
        method.parameters == ref.signature.parameters := by
  rw [← map_findConstructor?, resolveMethod, hr]
  simp only [bind, Except.bind, hk, if_true]
  cases catalog.findConstructor? type ref.signature.parameters <;> rfl

/-- In every catalog that has a module loaded, a reference to a constructor of a declared type leads
to the first entry of the module with its parameter types. -/
theorem resolveMethod_declared {source : ModuleSource} {base loaded catalog : Catalog}
    {assembly : AssemblyId} (hb : base.Closed)
    (h : Load.addModule source base = .ok assembly loaded) {type : TypeDeclaration} {id : TypeId}
    (ht : (type, id) ∈ base.numbered source) (he : loaded.Extends catalog) {ref : MethodRef}
    (hk : ref.isConstructor = true) (hr : catalog.resolveType ref.declaringType = .ok id)
    {own : List MethodDeclaration} (hown : source.constructors type = .ok own)
    {chosen : MethodDeclaration}
    (hc : own.find? (fun d => d.signature.parameters == ref.signature.parameters) = some chosen) :
    ∃ method, catalog.resolveMethod ref = .ok method ∧
      catalog.method method = chosen.asConstructor id := by
  obtain ⟨own', hown', hconstructors⟩ := Load.constructors_addModule hb h ht
  rw [hown] at hown'
  cases hown'
  have hclosed := hb.addModule source
  have hannounced := Load.announced_addModule source base
  rw [h, Load.after] at hclosed hannounced
  have hid : id.index < loaded.types.size := by
    rw [hannounced.size_types]
    exact (mem_newTypes.mp (List.of_mem_zip ht).2).2
  have hfound := map_resolveMethod_constructor hk hr
  rw [he.constructorsOf_eq hclosed hid, hconstructors, List.find?_map] at hfound
  have hsame : own.find? ((fun method : Method => method.parameters == ref.signature.parameters) ∘
      fun d : MethodDeclaration => d.asConstructor id) = some chosen := hc
  rw [hsame] at hfound
  obtain ⟨method, hmethod, hchosen⟩ := Option.map_eq_some_iff.mp hfound
  exact ⟨method, toOption_eq_some_iff.mp hmethod, hchosen⟩

end Catalog

end ManagedCode
