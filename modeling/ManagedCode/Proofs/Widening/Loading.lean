import ManagedCode.Machine.Loading
import ManagedCode.Proofs.Catalog.Agreement
import ManagedCode.Proofs.Catalog.Extension
import ManagedCode.Proofs.Widening.Sources

/-!
# Loading modules that differ in the width of branches

Two module images are equal except for the code of their methods, which was assembled from sources
that differ in the width of branches. Loading them does the same, up to the bodies in the catalog:
these match, or both loads fail at the same place with the same fault.
-/

namespace ManagedCode

/-- The methods are declared alike, and their bodies match. -/
structure Method.Matches (a b : Method) : Prop where
  declaration : a.SameDeclaration b
  body : a.body.Matches b.body

/-- The catalogs are equal except for the bodies of their methods, which match. -/
structure Catalog.Matches (c c' : Catalog) : Prop where
  assemblies : c.assemblies = c'.assemblies
  types : c.types = c'.types
  methods : List.Forall₂ Method.Matches c.methods.toList c'.methods.toList

/-- The methods are declared alike, and their bodies match. -/
structure MethodDeclaration.Matches (a b : MethodDeclaration) : Prop where
  name : a.name = b.name
  signature : a.signature = b.signature
  isAbstract : a.isAbstract = b.isAbstract
  isVirtual : a.isVirtual = b.isVirtual
  body : a.body.Matches b.body

/-- The modules declare the same, except that the bodies only match. -/
structure ModuleSource.Matches (source source' : ModuleSource) : Prop where
  assembly : source.assembly = source'.assembly
  types : source.types = source'.types
  fields : source.fields = source'.fields
  constructors : ∀ type, SameResult (List.Forall₂ MethodDeclaration.Matches)
    (source.constructors type) (source'.constructors type)
  methods : ∀ type, SameResult (List.Forall₂ MethodDeclaration.Matches)
    (source.methods type) (source'.methods type)

namespace Method.Matches

/-- A method matches itself. -/
theorem refl (method : Method) : method.Matches method :=
  ⟨⟨rfl, rfl, rfl, rfl⟩, .refl method.body⟩

end Method.Matches

namespace Catalog.Matches

/-- A catalog matches itself. -/
theorem refl (c : Catalog) : c.Matches c :=
  ⟨rfl, rfl, List.forall₂_same.mpr fun method _ => .refl method⟩

variable {c c' : Catalog} (h : c.Matches c')

include h

/-- Catalogs that match have matching methods under the same numbers. -/
theorem method (id : MethodId) : (c.method id).Matches (c'.method id) := by
  have hrel := rel_getElem? h.methods id.index
  rw [Catalog.method, Catalog.method, Array.getD_eq_getD_getElem?, Array.getD_eq_getD_getElem?,
    ← Array.getElem?_toList, ← Array.getElem?_toList]
  generalize c.methods.toList[id.index]? = x, c'.methods.toList[id.index]? = y at hrel
  cases hrel with
  | none => exact .refl default
  | some h => exact h

/-- Catalogs that match agree in all but the instructions. -/
theorem agrees : c.Agrees c' := ⟨h.assemblies, h.types, fun id => (h.method id).declaration⟩

/-- Catalogs still match when matching methods are added. -/
theorem addMethod {a b : Method} (hab : a.Matches b) :
    (c.addMethod a).2.Matches (c'.addMethod b).2 := by
  have hsize : c.methods.size = c'.methods.size := h.methods.length_eq
  refine ⟨h.assemblies, ?_, ?_⟩
  · simp only [Catalog.addMethod, h.types, hsize, hab.declaration.declaringType,
      hab.declaration.isConstructor]
  · simp only [Catalog.addMethod, Array.toList_push]
    exact List.rel_append h.methods (.cons hab .nil)

end Catalog.Matches

/-! ## Loads -/

namespace Load

/-- Both loads, or parts of them, end in the same way with catalogs that match. -/
inductive SameEnd {α : Type} :
    EStateM.Result Fault Catalog α → EStateM.Result Fault Catalog α → Prop
  | ok (a : α) {c c' : Catalog} (h : c.Matches c') : SameEnd (.ok a c) (.ok a c')
  | error (fault : Fault) {c c' : Catalog} (h : c.Matches c') :
      SameEnd (.error fault c) (.error fault c')

/-- On catalogs that match, the computations end in the same way with catalogs that match. -/
def Together {α : Type} (x y : Load α) : Prop :=
  ∀ c c' : Catalog, c.Matches c' → SameEnd (x c) (y c')

section

variable {α β γ : Type}

/-- Giving a value is the same on both sides. -/
theorem together_pure (a : α) : Together (pure a) (pure a) := fun _ _ h => .ok a h

/-- A change that respects matching may be made on both sides. -/
theorem together_modifyGet {f : Catalog → α × Catalog}
    (hf : ∀ c c' : Catalog, c.Matches c' → (f c).1 = (f c').1 ∧ (f c).2.Matches (f c').2) :
    Together (modifyGet f) (modifyGet f) := by
  intro c c' h
  obtain ⟨ha, hc⟩ := hf c c' h
  show SameEnd (.ok (f c).1 (f c).2) (.ok (f c').1 (f c').2)
  rw [ha]
  exact .ok _ hc

/-- Phases in sequence go together if each does. -/
theorem Together.bind {x y : Load α} {f g : α → Load β} (hx : Together x y)
    (hf : ∀ a, Together (f a) (g a)) : Together (x >>= f) (y >>= g) := by
  intro c c' h
  have hfirst := hx c c' h
  simp only [Bind.bind, EStateM.bind]
  generalize x c = first, y c' = second at hfirst
  cases hfirst with
  | ok a h => exact hf a _ _ h
  | error fault h => exact .error fault h

/-- What follows a reading goes together if both readings have related results. -/
theorem together_declared_bind {R : β → γ → Prop} {x : Except DecodeError β}
    {y : Except DecodeError γ} {f : β → Load α} {g : γ → Load α} (h : SameResult R x y)
    (hf : ∀ b c, R b c → Together (f b) (g c)) :
    Together (declared x >>= f) (declared y >>= g) := by
  cases h with
  | ok h => exact hf _ _ h
  | error e => exact fun _ _ h => .error (.decode e) h

/-- A phase may be repeated for the items of two related lists. -/
theorem together_forM {R : β → γ → Prop} {bs : List β} {cs : List γ} {f : β → Load Unit}
    {g : γ → Load Unit} (h : List.Forall₂ R bs cs) (hf : ∀ b c, R b c → Together (f b) (g c)) :
    Together (bs.forM f) (cs.forM g) := by
  induction h with
  | nil => exact together_pure ()
  | cons hbc _ ih => exact (hf _ _ hbc).bind fun _ => ih

/-- A phase may be repeated for every item of a list. -/
theorem together_mapM {items : List β} {f g : β → Load α} (hf : ∀ b, Together (f b) (g b)) :
    Together (items.mapM f) (items.mapM g) := by
  induction items with
  | nil => exact together_pure []
  | cons b items ih =>
    rw [List.mapM_cons, List.mapM_cons]
    exact (hf b).bind fun a => ih.bind fun as => together_pure (a :: as)

end

/-- The same type may be added on both sides. -/
theorem together_addType (assembly : AssemblyId) (type : TypeDeclaration) :
    Together (addType assembly type) (addType assembly type) := by
  refine together_modifyGet fun c c' h => ⟨?_, ?_, ?_, h.methods⟩
  · simp only [Catalog.addType, h.types]
  · simp only [Catalog.addType, h.assemblies, h.types]
  · simp only [Catalog.addType, h.types]

/-- The same fields may be added on both sides. -/
theorem together_addFields (source : ModuleSource) (types : List (TypeDeclaration × TypeId))
    (id : TypeId) (ancestor : TypeDeclaration) :
    Together (addFields source types id ancestor) (addFields source types id ancestor) := by
  refine together_declared_bind (.refl (source.fields ancestor)) fun fields _ hfields c c' h =>
    .ok () ?_
  subst hfields
  induction fields generalizing c c' with
  | nil => exact h
  | cons field fields ih =>
    exact ih _ _ ⟨h.assemblies, by simp only [Catalog.addField, h.types], h.methods⟩

/-- Matching methods may be added on both sides. -/
theorem together_addMethod (id : TypeId) (kind : MethodKind) {a b : MethodDeclaration}
    (hab : a.Matches b) : Together (addMethod id kind a) (addMethod id kind b) := by
  intro c c' h
  refine .ok () (h.addMethod ⟨⟨rfl, ?_, ?_, rfl⟩, hab.body⟩)
  · rw [hab.signature]
  · rw [hab.signature]

/-- The members that matching sources declare for a type may be added. -/
theorem together_addMembers {source source' : ModuleSource} (hs : source.Matches source')
    (type : TypeDeclaration) (id : TypeId) :
    Together (addMembers source type id) (addMembers source' type id) := by
  refine together_declared_bind (hs.constructors type) fun constructors constructors' hc => ?_
  refine (together_forM hc fun _ _ => together_addMethod id _).bind fun _ => ?_
  refine together_declared_bind (hs.methods type) fun methods methods' hm => ?_
  refine together_forM hm fun a b hab => ?_
  rw [hab.name, hab.signature, hab.isAbstract, hab.isVirtual]
  exact together_addMethod id _ hab

/-- Cycles are refused on both sides or on neither. -/
theorem together_refuseCycles (ids : List TypeId) :
    Together (refuseCycles ids) (refuseCycles ids) := by
  intro c c' h
  simp only [refuseCycles_eq, h.agrees.hasCyclicBase, h.agrees.fullName]
  cases ids.find? c'.hasCyclicBase with
  | some id => exact .error _ h
  | none => exact .ok () h

/-- Modules that declare the same up to matching bodies are added in the same way. -/
theorem together_addModule {source source' : ModuleSource} (hs : source.Matches source') :
    Together (addModule source) (addModule source') := by
  have hassembly : Together
      (modifyGet fun catalog => catalog.addAssembly source.assembly false : Load AssemblyId)
      (modifyGet fun catalog => catalog.addAssembly source.assembly false) := by
    refine together_modifyGet fun c c' h => ⟨?_, ?_, h.types, h.methods⟩
    · simp only [Catalog.addAssembly, h.assemblies]
    · simp only [Catalog.addAssembly, h.assemblies]
  have hfields : addFields source = addFields source' := by
    funext types id ancestor
    simp only [addFields, hs.fields]
  unfold addModule
  rw [hfields, ← hs.types, ← hs.assembly]
  refine hassembly.bind fun assembly => (together_mapM (together_addType assembly)).bind fun ids =>
    (together_refuseCycles ids).bind fun _ => ?_
  have hsame : List.Forall₂ Eq (source.types.zip ids) (source.types.zip ids) :=
    List.forall₂_same.mpr fun _ _ => rfl
  refine (together_forM hsame ?_).bind fun _ =>
    (together_forM hsame ?_).bind fun _ => together_pure assembly
  · rintro type _ rfl
    refine together_forM (List.forall₂_same.mpr fun _ _ => rfl) ?_
    rintro ancestor _ rfl
    exact together_addFields source' _ type.2 ancestor
  · rintro type _ rfl
    exact together_addMembers hs type.1 type.2

end Load

/-! ## Images -/

/-- The methods are equal except for their code, in the relation `P`. -/
structure MethodImage.Recoded (P : List UInt8 → List UInt8 → Prop) (a b : MethodImage) : Prop where
  name : a.name = b.name
  signature : a.signature = b.signature
  isAbstract : a.isAbstract = b.isAbstract
  isVirtual : a.isVirtual = b.isVirtual
  code : P a.code b.code

/-- The types are equal except for the code of their methods, in the relation `P`. -/
structure TypeImage.Recoded (P : List UInt8 → List UInt8 → Prop) (a b : TypeImage) : Prop where
  nameSpace : a.nameSpace = b.nameSpace
  name : a.name = b.name
  base : a.base = b.base
  fields : a.fields = b.fields
  constructors : List.Forall₂ (MethodImage.Recoded P) a.constructors b.constructors
  methods : List.Forall₂ (MethodImage.Recoded P) a.methods b.methods

/-- The modules are equal except for the code of their methods, in the relation `P`. -/
structure Image.Recoded (P : List UInt8 → List UInt8 → Prop) (a b : Image) : Prop where
  name : a.name = b.name
  types : List.Forall₂ (TypeImage.Recoded P) a.types b.types
  strings : a.strings = b.strings
  members : a.members = b.members

/-- Two searches of related lists find related items if their tests agree on such. -/
theorem rel_find? {α β : Type} {R : α → β → Prop} {as : List α} {bs : List β}
    (h : List.Forall₂ R as bs) {p : α → Bool} {q : β → Bool} (hpq : ∀ a b, R a b → p a = q b) :
    Option.Rel R (as.find? p) (bs.find? q) := by
  induction h with
  | nil => exact .none
  | @cons a b _ _ hab _ ih =>
    rw [List.find?_cons, List.find?_cons, hpq a b hab]
    split
    · exact .some hab
    · exact ih

namespace Image.Recoded

variable {P : List UInt8 → List UInt8 → Prop} {image image' : Image} (h : image.Recoded P image')

include h

/-- Recoded images are of the same assembly. -/
theorem assembly : image.assembly = image'.assembly := by
  rw [Image.assembly, Image.assembly, h.name]

/-- The tokens of recoded images stand for the same. -/
theorem resolver : image.resolver = image'.resolver := by
  have hmember : image.member = image'.member := by
    funext token
    rw [member, member, h.members]
  have hstring : image.resolveString = image'.resolveString := by
    funext token
    rw [resolveString, resolveString, h.strings]
  have hcallable : image.resolveMember = image'.resolveMember := by
    funext token
    simp only [resolveMember, hmember, h.assembly]
  have hfield : image.resolveField = image'.resolveField := by
    funext token
    simp only [resolveField, hmember, h.assembly]
  have hmethod : image.resolveMethod = image'.resolveMethod := by
    funext token
    simp only [resolveMethod, hcallable]
  have htype : image.resolveType = image'.resolveType := by
    funext token
    simp only [resolveType, hmember, h.assembly]
  simp only [Image.resolver, hstring, hfield, hmethod, hcallable, htype]

/-- Recoded images declare the same types. -/
theorem declaredTypes : image.declaredTypes = image'.declaredTypes := by
  have hall := h.types
  rw [Image.declaredTypes, Image.declaredTypes, h.assembly]
  generalize image.types = types, image'.types = types' at hall
  induction hall with
  | nil => rfl
  | cons htype _ ih => simp only [List.map_cons, ih, htype.nameSpace, htype.name, htype.base]

/-- Recoded images define each type with members that are recoded. -/
theorem definition? (type : TypeDeclaration) :
    Option.Rel (TypeImage.Recoded P) (image.definition? type) (image'.definition? type) :=
  rel_find? h.types fun a b hab => by rw [hab.nameSpace, hab.name]

/-- Methods whose code is decoded alike are declared alike. -/
theorem sameResult_declareMethod
    (hP : ∀ code code', P code code' → DecodesAlike code code') {a b : MethodImage}
    (hab : a.Recoded P b) :
    SameResult MethodDeclaration.Matches (image.declareMethod a) (image'.declareMethod b) := by
  have hsignature : SameResult Eq
      ((Signature.parse image'.assembly b.signature).mapError DecodeError.resolve)
      ((Signature.parse image'.assembly b.signature).mapError DecodeError.resolve) := .refl _
  unfold declareMethod
  rw [h.assembly, h.resolver, hab.signature]
  refine hsignature.bind fun signature _ hs => (hP _ _ hab.code _).bind fun body body' hb => ?_
  exact .ok ⟨hab.name, hs, hab.isAbstract, hab.isVirtual, hb⟩

/-- The methods that a type has in one of its lists are declared alike. -/
private theorem sameResult_declared (hP : ∀ code code', P code code' → DecodesAlike code code')
    {list : TypeImage → List MethodImage}
    (hlist : ∀ a b, a.Recoded P b → List.Forall₂ (MethodImage.Recoded P) (list a) (list b))
    (type : TypeDeclaration) :
    SameResult (List.Forall₂ MethodDeclaration.Matches)
      (match image.definition? type with
        | none => .ok []
        | some definition => (list definition).mapM image.declareMethod)
      (match image'.definition? type with
        | none => .ok []
        | some definition => (list definition).mapM image'.declareMethod) := by
  have hrel := h.definition? type
  generalize image.definition? type = x, image'.definition? type = y at hrel
  cases hrel with
  | none => exact .ok .nil
  | some hdefinition =>
    exact .mapM (hlist _ _ hdefinition) fun _ _ => h.sameResult_declareMethod hP

/-- Images whose code is decoded alike declare the same up to bodies that match. -/
theorem source (hP : ∀ code code', P code code' → DecodesAlike code code') :
    image.source.Matches image'.source where
  assembly := h.assembly
  types := h.declaredTypes
  fields := by
    funext type
    have hrel := h.definition? type
    simp only [Image.source, declaredFields, h.assembly]
    generalize image.definition? type = x, image'.definition? type = y at hrel
    cases hrel with
    | none => rfl
    | some hdefinition => simp only [hdefinition.fields]
  constructors := h.sameResult_declared hP fun _ _ => TypeImage.Recoded.constructors
  methods := h.sameResult_declared hP fun _ _ => TypeImage.Recoded.methods

end Image.Recoded

end ManagedCode
