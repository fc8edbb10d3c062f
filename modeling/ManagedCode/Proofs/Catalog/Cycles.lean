import ManagedCode.Proofs.Catalog.Ancestry

/-!
# Cyclic inheritance

Base types are named by reference and looked up in the catalog each time. A load looks for cycles
once the module is announced, and what it adds later does not change what the references lead to.
So a module is rejected for cyclic inheritance exactly if following the named base types from one of
its types comes back to a type that was left before. A type that names itself is never left: it
counts as one without a base type, and its module is accepted.
-/

namespace ManagedCode

open Relation

namespace Catalog

/-! ## What announced types say -/

section Headers

variable {base catalog : Catalog} {source : ModuleSource}

/-- The name of a type is settled by the announcement. -/
theorem Announced.fullName_announce (h : Announced base source catalog) (id : TypeId) :
    catalog.fullName id = (base.announce source).fullName id := by
  unfold Catalog.fullName typeRef TypeRef.ofNames TypeRef.fullName
  simp only [h.name_type]
  rw [h.nameSpace_type]

/-- The members that a load adds do not matter for the types that references find. -/
theorem Announced.resolveType_announce (h : Announced base source catalog) :
    catalog.resolveType = (base.announce source).resolveType := by
  funext ref
  simp only [Catalog.resolveType, resolvePlainType, findAssembly?, Catalog.assembly, h.assemblies,
    h.name_type, h.nameSpace_type]

/-- The base types are settled by the announcement. -/
theorem Announced.base?_announce (h : Announced base source catalog) :
    catalog.base? = (base.announce source).base? := by
  funext type
  simp only [Catalog.base?, h.base_type, h.resolveType_announce]

/-- Which type derives from which is settled by the announcement. -/
theorem Announced.derives_announce (h : Announced base source catalog) :
    catalog.Derives = (base.announce source).Derives := by
  funext derived parent
  simp only [Derives, h.base?_announce]

end Headers

/-! ## Named base types -/

/-- The type that a type names as its base type, if the catalog has it. It may be the type itself.
-/
def namedBase? (catalog : Catalog) (type : TypeId) : Option TypeId :=
  (catalog.type type).base.bind fun ref => (catalog.resolveType ref).toOption

/-- The one type names the other as its base type. -/
def Names (catalog : Catalog) (type parent : TypeId) : Prop :=
  catalog.namedBase? type = some parent

/-- Following the named base types comes back to a type that was left before. -/
def RunsIntoCycle (catalog : Catalog) (type : TypeId) : Prop :=
  ∃ left next, ReflTransGen catalog.Names type left ∧ catalog.Names left next ∧ left ≠ next ∧
    ReflTransGen catalog.Names next left

section Naming

variable {catalog : Catalog} {type parent : TypeId}

/-- The base type is the named one, unless that is the type itself. -/
theorem derives_iff : catalog.Derives type parent ↔ catalog.Names type parent ∧ type ≠ parent := by
  unfold Derives Names Catalog.base? namedBase?
  cases (catalog.type type).base with
  | none => simp
  | some ref =>
    cases hr : catalog.resolveType ref with
    | error e => simp [hr, Except.toOption]
    | ok found =>
      simp only [Option.bind_some, hr, Except.toOption, Option.ite_none_left_eq_some,
        Option.some.injEq]
      constructor
      · rintro ⟨hne, rfl⟩
        exact ⟨rfl, Ne.symm hne⟩
      · rintro ⟨rfl, hne⟩
        exact ⟨Ne.symm hne, rfl⟩

/-- A type that names itself adds nothing to what can be reached. -/
theorem reaches_names_iff :
    ReflTransGen catalog.Names type parent ↔ ReflTransGen catalog.Derives type parent := by
  constructor
  · intro h
    induction h with
    | refl => exact .refl
    | @tail b c _ hn ih =>
      by_cases hbc : b = c
      · exact hbc ▸ ih
      · exact ih.tail (derives_iff.mpr ⟨hn, hbc⟩)
  · exact ReflTransGen.mono (fun _ _ h => (derives_iff.mp h).1) type parent

/-- The check for cycles finds exactly the types that run into one. -/
theorem runsIntoCycle_iff : catalog.RunsIntoCycle type ↔ catalog.hasCyclicBase type = true := by
  rw [hasCyclicBase_iff]
  constructor
  · rintro ⟨left, next, hleft, hnext, hne, hback⟩
    exact ⟨left, reaches_names_iff.mp hleft,
      .head' (derives_iff.mpr ⟨hnext, hne⟩) (reaches_names_iff.mp hback)⟩
  · rintro ⟨left, hleft, hcycle⟩
    obtain ⟨next, hnext, hback⟩ := TransGen.head'_iff.mp hcycle
    obtain ⟨hnames, hne⟩ := derives_iff.mp hnext
    exact ⟨left, next, reaches_names_iff.mpr hleft, hnames, hne, reaches_names_iff.mpr hback⟩

variable {base : Catalog} {source : ModuleSource}

/-- What a load adds to an announced module does not matter for cycles. -/
theorem Announced.hasCyclicBase_announce (h : Announced base source catalog) :
    catalog.hasCyclicBase = (base.announce source).hasCyclicBase := by
  funext type
  rw [Bool.eq_iff_iff, hasCyclicBase_iff, hasCyclicBase_iff, h.derives_announce]

/-- Whether a type runs into a cycle is settled by the announcement. -/
theorem Announced.runsIntoCycle_iff (h : Announced base source catalog) :
    catalog.RunsIntoCycle type ↔ (base.announce source).hasCyclicBase type = true := by
  rw [Catalog.runsIntoCycle_iff, h.hasCyclicBase_announce]

end Naming

end Catalog

/-! ## Rejection -/

namespace Load

open Catalog

/-- What a load does once it has found no cycle. -/
def addMemberLists (source : ModuleSource) (ids : List TypeId) : Load Unit := do
  let types := source.types.zip ids
  types.forM fun (type, id) =>
    (lineage source.types source.assembly type).forM (addFields source types id)
  types.forM fun (type, id) => addMembers source type id

/-- Adding the members of all types fails where a declaration cannot be read. -/
theorem failsWith_addMemberLists {allowed : Fault → Prop} (hd : ∀ error, allowed (.decode error))
    (source : ModuleSource) (ids : List TypeId) : FailsWith allowed (addMemberLists source ids) := by
  refine (failsWith_forM fun type => failsWith_forM fun ancestor => ?_).bind fun _ => ?_
  · exact failsWith_addFields hd source _ type.2 ancestor
  · exact failsWith_forM fun type => failsWith_addMembers hd source type.1 type.2

/-- The first type that runs into a cycle makes the load fail; if there is none, the members are
added. -/
theorem addModule_cases (source : ModuleSource) (base : Catalog) :
    (∃ type, (base.newTypes source).find? (base.announce source).hasCyclicBase = some type ∧
      addModule source base = .error
        (.resolve (.cyclicInheritance ((base.announce source).fullName type)))
        (base.announce source)) ∨
    ((base.newTypes source).find? (base.announce source).hasCyclicBase = none ∧
      addModule source base =
        (addMemberLists source (base.newTypes source) >>= fun _ =>
          pure ⟨base.assemblies.size⟩) (base.announce source)) := by
  have hcontent : addContent source ⟨base.assemblies.size⟩ (base.newTypes source) =
      (refuseCycles (base.newTypes source) >>= fun _ =>
        addMemberLists source (base.newTypes source) >>= fun _ =>
          pure ⟨base.assemblies.size⟩) := by
    simp only [addContent, addMemberLists, bind_assoc]
  rw [addModule_eq, hcontent]
  simp only [bind, EStateM.bind, refuseCycles_eq]
  cases (base.newTypes source).find? (base.announce source).hasCyclicBase with
  | none => exact .inr ⟨rfl, rfl⟩
  | some type => exact .inl ⟨type, rfl, rfl⟩

/-- No type of a module that is accepted has a cyclic base. -/
theorem hasCyclicBase_of_addModule_eq_ok {source : ModuleSource} {base catalog : Catalog}
    {assembly : AssemblyId} (h : addModule source base = .ok assembly catalog) :
    ∀ type ∈ base.newTypes source, catalog.hasCyclicBase type = false := by
  intro type hm
  obtain ⟨cyclic, -, hload⟩ | ⟨hnone, -⟩ := addModule_cases source base
  · rw [hload] at h
    cases h
  · have hannounced := announced_addModule source base
    rw [h, after] at hannounced
    rw [hannounced.hasCyclicBase_announce]
    simpa using List.find?_eq_none.mp hnone type hm

/-- A load fails for cyclic inheritance in the name of the first type that runs into a cycle. -/
theorem addModule_eq_cyclic_iff {source : ModuleSource} {base : Catalog} {name : String} :
    (∃ rejected, addModule source base = .error (.resolve (.cyclicInheritance name)) rejected) ↔
      ∃ type, (base.newTypes source).find? (base.announce source).hasCyclicBase = some type ∧
        (base.announce source).fullName type = name := by
  constructor
  · rintro ⟨rejected, hfails⟩
    obtain ⟨type, hfound, hload⟩ | ⟨-, hload⟩ := addModule_cases source base
    · rw [hload] at hfails
      cases hfails
      exact ⟨type, hfound, rfl⟩
    · have hdecode : FailsWith (fun fault => ∃ error, fault = .decode error)
          (addMemberLists source (base.newTypes source) >>= fun _ =>
            pure (⟨base.assemblies.size⟩ : AssemblyId)) :=
        (failsWith_addMemberLists (fun error => ⟨error, rfl⟩) source _).bind fun _ =>
          failsWith_pure _
      obtain ⟨error, herror⟩ := hdecode _ _ _ (hload.symm.trans hfails)
      cases herror
  · rintro ⟨type, hfound, rfl⟩
    obtain ⟨other, hother, hload⟩ | ⟨hnone, -⟩ := addModule_cases source base
    · rw [hfound] at hother
      cases hother
      exact ⟨_, hload⟩
    · rw [hfound] at hnone
      cases hnone

end Load

namespace Catalog

/-- The first new type that has a property is the one with the least number. -/
theorem find?_newTypes_eq_some_iff {base : Catalog} {source : ModuleSource} {p : TypeId → Bool}
    {type : TypeId} :
    (base.newTypes source).find? p = some type ↔
      type ∈ base.newTypes source ∧ p type = true ∧
        ∀ other ∈ base.newTypes source, p other = true → type.index ≤ other.index := by
  have hsorted : (base.newTypes source).Pairwise fun a b => a.index < b.index :=
    List.pairwise_map.mpr List.pairwise_lt_range'
  have hleast : ∀ {first}, (base.newTypes source).find? p = some first →
      ∀ other ∈ base.newTypes source, p other = true → first.index ≤ other.index := by
    intro first hfirst other hm hp
    obtain ⟨-, front, back, hsplit, hfront⟩ := List.find?_eq_some_iff_append.mp hfirst
    rw [hsplit, List.mem_append, List.mem_cons] at hm
    rcases hm with hm | rfl | hm
    · simpa [hp] using hfront other hm
    · exact le_rfl
    · rw [hsplit, List.pairwise_append] at hsorted
      exact (List.rel_of_pairwise_cons hsorted.2.1 hm).le
  constructor
  · intro hfound
    exact ⟨List.mem_of_find?_eq_some hfound, List.find?_some hfound, hleast hfound⟩
  · rintro ⟨hm, hp, hmin⟩
    obtain ⟨first, hfirst⟩ := Option.isSome_iff_exists.mp (List.find?_isSome.mpr ⟨type, hm, hp⟩)
    have hle := hleast hfirst type hm hp
    have hge := hmin first (List.mem_of_find?_eq_some hfirst) (List.find?_some hfirst)
    have hsame : first = type := congrArg TypeId.mk (Nat.le_antisymm hle hge)
    rw [hfirst, hsame]

end Catalog

open Machine Catalog in
/-- Cyclic inheritance is rejected unless a type names itself. A load fails for it exactly if the
named base types of one of the types of the module run into a cycle in the catalog that the load
leaves, and the fault names the first type of which that is so. A type that names itself counts as
one that has no base type. -/
theorem cyclic_inheritance_rejected (m : Machine) (source : ModuleSource) :
    let catalog := (Outcome.machine (m.loadModule source)).catalog
    ((∃ name rejected,
        m.loadModule source = .error (.resolve (.cyclicInheritance name)) rejected) ↔
      ∃ type ∈ m.catalog.newTypes source, catalog.RunsIntoCycle type) ∧
    ∀ name,
      (∃ rejected, m.loadModule source = .error (.resolve (.cyclicInheritance name)) rejected) ↔
        ∃ type ∈ m.catalog.newTypes source, catalog.RunsIntoCycle type ∧
          (∀ other ∈ m.catalog.newTypes source, catalog.RunsIntoCycle other →
            type.index ≤ other.index) ∧
          catalog.fullName type = name := by
  intro catalog
  have hannounced : m.catalog.Announced source catalog := announced_loadModule source m
  have hnamed : ∀ name,
      (∃ rejected, m.loadModule source = .error (.resolve (.cyclicInheritance name)) rejected) ↔
        ∃ type ∈ m.catalog.newTypes source, catalog.RunsIntoCycle type ∧
          (∀ other ∈ m.catalog.newTypes source, catalog.RunsIntoCycle other →
            type.index ≤ other.index) ∧
          catalog.fullName type = name := by
    intro name
    have hload : (∃ rejected, m.loadModule source =
          .error (.resolve (.cyclicInheritance name)) rejected) ↔
        ∃ rejected, Load.addModule source m.catalog =
          .error (.resolve (.cyclicInheritance name)) rejected := by
      unfold loadModule
      cases Load.addModule source m.catalog <;> simp
    rw [hload, Load.addModule_eq_cyclic_iff]
    simp only [find?_newTypes_eq_some_iff, hannounced.runsIntoCycle_iff,
      hannounced.fullName_announce, and_assoc]
  refine ⟨?_, hnamed⟩
  constructor
  · rintro ⟨name, hfails⟩
    obtain ⟨type, hm, hcycle, -⟩ := (hnamed name).mp hfails
    exact ⟨type, hm, hcycle⟩
  · rintro ⟨type, hm, hcycle⟩
    obtain ⟨first, hfirst⟩ := Option.isSome_iff_exists.mp (List.find?_isSome.mpr
      ⟨type, hm, hannounced.runsIntoCycle_iff.mp hcycle⟩)
    obtain ⟨hfm, hfc, hleast⟩ := find?_newTypes_eq_some_iff.mp hfirst
    refine ⟨catalog.fullName first, (hnamed _).mpr ⟨first, hfm, ?_, ?_, rfl⟩⟩
    · exact hannounced.runsIntoCycle_iff.mpr hfc
    · exact fun other ho hc => hleast other ho (hannounced.runsIntoCycle_iff.mp hc)

/-- A type that names itself as its base type inherits from itself, and its module is loaded. -/
theorem self_based_type_loaded :
    let source := ModuleSource.ofType "App" ⟨"", "Node", some ⟨"App", "", "Node"⟩⟩
    let machine := Machine.new {} .empty
    ∃ assembly loaded, machine.loadModule source = .ok assembly loaded ∧
      ∃ type ∈ machine.catalog.newTypes source, TransGen loaded.catalog.Names type type := by
  intro source machine
  have hloaded : Outcome.result? (machine.loadModule source) = some ⟨1⟩ := by decide +kernel
  have hnames : (Outcome.machine (machine.loadModule source)).catalog.namedBase?
      ⟨Library.catalog.types.size⟩ = some ⟨Library.catalog.types.size⟩ := by
    decide +kernel
  cases hok : machine.loadModule source with
  | ok assembly loaded =>
    rw [hok] at hnames
    exact ⟨assembly, loaded, rfl, ⟨Library.catalog.types.size⟩, by decide +kernel, .single hnames⟩
  | error fault rejected =>
    rw [hok] at hloaded
    cases hloaded

end ManagedCode
