import ManagedCode.Proofs.Catalog.Conservation

/-!
# What a rejected module leaves

A load announces the module before it looks at anything that could be wrong with it, and a failure
takes nothing back. So the assembly of a rejected module stays in the catalog with all its types.
Where its name is new it is from then on the first assembly of that name: references to its types
find what the failed load left, also after a corrected module of the same name was loaded.
-/

namespace ManagedCode

namespace Catalog

variable {base catalog : Catalog} {source : ModuleSource}

/-- An assembly whose name is new is found under it once it is announced. -/
theorem Announced.findAssembly?_eq (h : Announced base source catalog)
    (hnew : base.findAssembly? source.assembly = none) :
    catalog.findAssembly? source.assembly = some ⟨base.assemblies.size⟩ := by
  unfold findAssembly? at hnew ⊢
  rw [Option.map_eq_none_iff] at hnew
  simp [h.assemblies, announce, Array.findIdx?_push, hnew]

/-- The new assembly has the normalized name of the module and lists its types. -/
theorem Announced.assembly_eq (h : Announced base source catalog) :
    catalog.assembly ⟨base.assemblies.size⟩ =
      ⟨normalizeAssemblyName source.assembly, false, base.newTypes source⟩ := by
  unfold Catalog.assembly
  rw [h.assemblies, announce]
  simp

/-- Every declared type has its header under one of the new numbers. -/
theorem Announced.exists_type (h : Announced base source catalog) {type : TypeDeclaration}
    (ht : type ∈ source.types) :
    ∃ id ∈ base.newTypes source, (catalog.type id).header = type.header ⟨base.assemblies.size⟩ := by
  obtain ⟨id, hpair⟩ := exists_number base ht
  refine ⟨id, (List.of_mem_zip hpair).2, ?_⟩
  rw [h.header_type, type_announce hpair]
  rfl

/-- A reference to a type of a module whose name is new finds one of the announced types. -/
theorem Announced.resolveType_eq (h : Announced base source catalog)
    (hnew : base.findAssembly? source.assembly = none) {type : TypeDeclaration}
    (ht : type ∈ source.types)
    (harray : TypeRef.isArray ⟨source.assembly, type.nameSpace, type.name⟩ = false) :
    ∃ id ∈ base.newTypes source,
      catalog.resolveType ⟨source.assembly, type.nameSpace, type.name⟩ = .ok id := by
  obtain ⟨wanted, hwanted, hheader⟩ := h.exists_type ht
  have hname : (catalog.type wanted).name = type.name :=
    congrArg TypeDefinition.name hheader
  have hnameSpace : (catalog.type wanted).nameSpace = type.nameSpace :=
    congrArg TypeDefinition.nameSpace hheader
  obtain ⟨id, hid⟩ : ∃ id, (base.newTypes source).find? (fun id =>
      (catalog.type id).name == type.name && (catalog.type id).nameSpace == type.nameSpace) =
        some id := by
    apply Option.isSome_iff_exists.mp
    rw [List.find?_isSome]
    exact ⟨wanted, hwanted, by simp [hname, hnameSpace]⟩
  refine ⟨id, List.mem_of_find?_eq_some hid, ?_⟩
  simp only [resolveType, harray, Bool.false_eq_true, if_false]
  apply resolvePlainType_eq_ok_iff.mpr
  refine ⟨_, h.findAssembly?_eq hnew, ?_⟩
  rw [h.assembly_eq]
  exact hid

end Catalog

open Machine in
/-- A module that was rejected stays. A failed load changes the machine: the catalog has a further
assembly with all the types of the module, and nothing but the catalog is different. If no assembly
had the name before, each reference to a type of the module finds what the failed load left, also in
every catalog that later loads make. -/
theorem rejected_module_stays {m m' : Machine} {source : ModuleSource} {fault : Fault}
    (hl : m.catalog.Loaded) (hr : m.loadModule source = .error fault m') :
    m' ≠ m ∧ m' = { m with catalog := m'.catalog } ∧ m.catalog.Announced source m'.catalog ∧
      (m.catalog.findAssembly? source.assembly = none →
        ∀ type ∈ source.types, ∀ ref : TypeRef,
          ref = ⟨source.assembly, type.nameSpace, type.name⟩ → ref.isArray = false →
          ∀ catalog, m'.catalog.Extends catalog →
            ∃ id ∈ m.catalog.newTypes source,
              catalog.resolveType ref = .ok id ∧ catalog.type id = m'.catalog.type id) := by
  have hm' : m' = { m with catalog := Load.after (Load.addModule source m.catalog) } := by
    rw [← machine_loadModule, hr]
    rfl
  have hannounced : m.catalog.Announced source m'.catalog := by
    have hannounced := announced_loadModule source m
    rwa [hr] at hannounced
  have hclosed : m'.catalog.Closed := by
    rw [hm']
    exact hl.closed.addModule source
  refine ⟨?_, by rw [hm'], hannounced, ?_⟩
  · rintro rfl
    have hsize := congrArg Array.size hannounced.assemblies
    simp [Catalog.announce] at hsize
  · rintro hnew type ht ref rfl harray catalog hextends
    obtain ⟨id, hid, hfound⟩ := hannounced.resolveType_eq hnew ht harray
    obtain ⟨hagain, hlt⟩ := hextends.resolveType_eq hclosed hfound
    exact ⟨id, hid, hagain, hextends.type_eq hlt⟩

/-- A module with two types, each of which has the other one as its base type. -/
def cyclicModule : ModuleSource where
  assembly := "App"
  types := [⟨"", "Program", some ⟨"App", "", "Other"⟩⟩, ⟨"", "Other", some ⟨"App", "", "Program"⟩⟩]
  fields _ := .ok []
  constructors _ := .ok []
  methods _ := .ok []

/-- A module of the same name whose only type has a static method `Main`. -/
def correctedModule : ModuleSource where
  assembly := "App"
  types := [⟨"", "Program", none⟩]
  fields _ := .ok []
  constructors _ := .ok []
  methods _ := .ok [⟨"Main", ⟨true, [], .system "Int32"⟩, false, false,
    ⟨#[⟨.ldcI47, 0, none⟩, ⟨.ret, 1, none⟩]⟩⟩]

private theorem loadModule_cyclicModule :
    (Machine.new {} .empty).loadModule cyclicModule =
      .error (.resolve (.cyclicInheritance "Program"))
        (Outcome.machine ((Machine.new {} .empty).loadModule cyclicModule)) := by
  have hfault : (match (Machine.new {} .empty).loadModule cyclicModule with
      | .ok _ _ => none
      | .error fault _ => some fault) = some (.resolve (.cyclicInheritance "Program")) := by
    decide +kernel
  split at hfault
  · cases hfault
  · rename_i fault rejected hr
    cases hfault
    rw [hr]
    rfl

/-- What the types of a cyclic module leave is found whatever is loaded after them. -/
theorem rejected_module_stays_cyclic :
    ∃ rejected,
      (Machine.new {} .empty).loadModule cyclicModule =
        .error (.resolve (.cyclicInheritance "Program")) rejected ∧
      ∀ source : ModuleSource, ∃ id ∈ Library.catalog.newTypes cyclicModule,
        (Outcome.machine (rejected.loadModule source)).catalog.resolveType ⟨"App", "", "Program"⟩ =
          .ok id := by
  refine ⟨_, loadModule_cyclicModule, fun source => ?_⟩
  obtain ⟨-, -, -, hstays⟩ := rejected_module_stays .library loadModule_cyclicModule
  have hextends := (Load.announced_addModule source
    (Outcome.machine ((Machine.new {} .empty).loadModule cyclicModule)).catalog).extension
  obtain ⟨id, hid, hfound, -⟩ := hstays (by decide +kernel) ⟨"", "Program", some ⟨"App", "", "Other"⟩⟩
    (by decide +kernel) _ rfl (by decide +kernel) _ hextends
  refine ⟨id, hid, ?_⟩
  rw [Machine.machine_loadModule]
  exact hfound

/-- The corrected module is not found behind the rejected one, though it is on a machine that never
saw the rejected one. -/
theorem corrected_module_shadowed :
    let machine := Machine.new {} .empty
    let rejected := Outcome.machine (machine.loadModule cyclicModule)
    let main : MethodRef := ⟨⟨"App", "", "Program"⟩, "Main", ⟨true, [], .system "Int32"⟩⟩
    machine.loadModule cyclicModule =
        .error (.resolve (.cyclicInheritance "Program")) rejected ∧
      (Outcome.machine (machine.loadModule correctedModule)).catalog.resolveMethod main =
        .ok ⟨Library.catalog.methods.size⟩ ∧
      (Outcome.machine (rejected.loadModule correctedModule)).catalog.resolveMethod main =
        .error (.unknownMember "Program" "Main") := by
  intro machine rejected main
  refine ⟨loadModule_cyclicModule, ?_, ?_⟩
  · decide +kernel
  · decide +kernel

end ManagedCode
