import ManagedCode.Proofs.Catalog.Conservation
import ManagedCode.Proofs.Instruction.Strict

/-!
# Where bodies come from

A module image gives every method the body that its code decodes to, and the built-in methods have
none. So every body in the catalog of a machine was decoded for execution: what decoding says about
its instructions holds of every instruction that a program meets.
-/

namespace ManagedCode

/-- Every method that the module declares has a body with a property. -/
structure ModuleSource.Supplies (source : ModuleSource) (good : Body → Prop) : Prop where
  constructors : ∀ type methods, source.constructors type = .ok methods →
    ∀ method ∈ methods, good method.body
  methods : ∀ type methods, source.methods type = .ok methods →
    ∀ method ∈ methods, good method.body

/-- Every method of the catalog has a body with a property. -/
def Catalog.Bodies (good : Body → Prop) (catalog : Catalog) : Prop :=
  ∀ method ∈ catalog.methods, good method.body

/-- A number that no method has stands for a method without instructions. -/
theorem Catalog.Bodies.method {good : Body → Prop} {catalog : Catalog} (h : catalog.Bodies good)
    (he : good .empty) (id : MethodId) : good (catalog.method id).body := by
  by_cases hid : id.index < catalog.methods.size
  · have hmethod : catalog.method id = catalog.methods[id.index] := by
      simp [Catalog.method, hid]
    rw [hmethod]
    exact h _ (Array.getElem_mem hid)
  · have hmethod : catalog.method id = default := by simp [Catalog.method, hid]
    rw [hmethod]
    exact he

namespace Load

variable {P : Catalog → Prop} {good : Body → Prop}

/-- What follows a declaration may rely on it. -/
theorem keeps_declared_bind {α β : Type} {x : Except DecodeError α} {f : α → Load β}
    (h : ∀ a, x = .ok a → Keeps P (f a)) : Keeps P (declared x >>= f) := by
  intro catalog hP
  cases x with
  | error error => exact hP
  | ok a => exact h a rfl catalog hP

/-- A method with a good body keeps all bodies good. -/
theorem keeps_addMethod {method : MethodDeclaration} (h : good method.body) (id : TypeId)
    (kind : MethodKind) : Keeps (Catalog.Bodies good) (addMethod id kind method) := by
  intro catalog hbodies added hadded
  rcases Array.mem_push.mp hadded with hold | rfl
  · exact hbodies added hold
  · exact h

private theorem methods_foldl_addField (fields : List FieldDeclaration) (id declaring : TypeId)
    (catalog : Catalog) :
    (fields.foldl (fun catalog f => Catalog.addField catalog id declaring f.name f.fieldType)
      catalog).methods = catalog.methods := by
  induction fields generalizing catalog with
  | nil => rfl
  | cons field fields ih => exact ih (catalog.addField id declaring field.name field.fieldType)

/-- Fields have no bodies. -/
theorem keeps_addFields (source : ModuleSource) (types : List (TypeDeclaration × TypeId))
    (id : TypeId) (ancestor : TypeDeclaration) :
    Keeps (Catalog.Bodies good) (addFields source types id ancestor) := by
  refine keeps_declared_bind fun fields _ catalog hbodies method hm => ?_
  exact hbodies method (methods_foldl_addField fields id _ catalog ▸ hm)

/-- The members of a source that supplies good bodies keep all bodies good. -/
theorem keeps_addMembers {source : ModuleSource} (hs : source.Supplies good)
    (type : TypeDeclaration) (id : TypeId) :
    Keeps (Catalog.Bodies good) (addMembers source type id) := by
  refine keeps_declared_bind fun constructors hconstructors => ?_
  refine (keeps_forM fun method hm => ?_).bind fun _ => ?_
  · exact keeps_addMethod (hs.constructors type constructors hconstructors method hm) id _
  · refine keeps_declared_bind fun methods hmethods => keeps_forM fun method hm => ?_
    exact keeps_addMethod (hs.methods type methods hmethods method hm) id _

/-- Loading a module whose bodies have a property keeps it true of all bodies. -/
theorem bodies_addModule {source : ModuleSource} (hs : source.Supplies good) {base : Catalog}
    (h : base.Bodies good) : (after (addModule source base)).Bodies good := by
  have hcontent : Keeps (Catalog.Bodies good)
      (addContent source ⟨base.assemblies.size⟩ (base.newTypes source)) := by
    refine (keeps_refuseCycles _).bind fun _ => ?_
    refine (keeps_forM fun type _ => keeps_forM fun ancestor _ => ?_).bind fun _ => ?_
    · exact keeps_addFields source _ type.2 ancestor
    · exact (keeps_forM fun type _ => keeps_addMembers hs type.1 type.2).bind fun _ =>
        keeps_pure _
  rw [addModule_eq]
  exact hcontent (base.announce source) h

end Load

namespace Image

/-- A method that an image declares has a body that was decoded. -/
theorem isDecoded_declareMethod {image : Image} {method : MethodImage}
    {declared : MethodDeclaration} (h : image.declareMethod method = .ok declared) :
    declared.body.IsDecoded := by
  obtain ⟨signature, _, h⟩ := bind_eq_ok_iff.mp h
  obtain ⟨body, hbody, h⟩ := bind_eq_ok_iff.mp h
  cases h
  exact ⟨image.resolver, method.code, hbody⟩

private theorem isDecoded_mapM {image : Image} {methods : List MethodImage}
    {declared : List MethodDeclaration} (h : methods.mapM image.declareMethod = .ok declared) :
    ∀ method ∈ declared, method.body.IsDecoded := by
  induction methods generalizing declared with
  | nil =>
    cases h
    exact fun _ hm => nomatch hm
  | cons method methods ih =>
    rw [List.mapM_cons] at h
    obtain ⟨first, hfirst, h⟩ := bind_eq_ok_iff.mp h
    obtain ⟨rest, hrest, h⟩ := bind_eq_ok_iff.mp h
    cases h
    exact List.forall_mem_cons.mpr ⟨isDecoded_declareMethod hfirst, ih hrest⟩

/-- Every method of an image has a decoded body. -/
theorem supplies_source (image : Image) : image.source.Supplies Body.IsDecoded := by
  constructor
  · intro type methods h
    simp only [source, declaredConstructors] at h
    split at h
    · cases h
      exact fun _ hm => nomatch hm
    · exact isDecoded_mapM h
  · intro type methods h
    simp only [source, declaredMethods] at h
    split at h
    · cases h
      exact fun _ hm => nomatch hm
    · exact isDecoded_mapM h

end Image

/-- The bodies of the built-in methods are empty, which is decoded from no bytes. -/
theorem bodies_library : Library.catalog.Bodies Body.IsDecoded := by
  have hempty : ∀ method ∈ Library.catalog.methods, method.body = .empty := by decide +kernel
  intro method hm
  rw [hempty method hm]
  exact Body.isDecoded_empty

/-- Every body in the catalog of a machine that a host gets to was decoded for execution. -/
theorem Attainable.bodies {options : Options} {files : Files} {m : Machine}
    (h : Attainable options files m) : m.catalog.Bodies Body.IsDecoded := by
  induction h with
  | new => exact bodies_library
  | act action fuel _ hr ih =>
    rcases Action.catalog_run hr with hsame | ⟨image, hloaded⟩
    · exact hsame ▸ ih
    · exact hloaded ▸ Load.bodies_addModule image.supplies_source ih
  | edit handle f _ ih => exact ih
  | write text _ ih => exact ih
  | setFiles others _ ih => exact ih

/-- Every body on a machine that a host reaches was decoded. -/
theorem Attainable.isDecoded {options : Options} {files : Files} {m : Machine}
    (h : Attainable options files m) (id : MethodId) : (m.catalog.method id).body.IsDecoded :=
  h.bodies.method Body.isDecoded_empty id

end ManagedCode
