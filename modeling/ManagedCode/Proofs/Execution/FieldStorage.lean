import ManagedCode.Proofs.Execution.Layout
import ManagedCode.Proofs.Execution.Operations

/-!
# Field storage

An object of a loaded type is a record: it has one value for each field of its type, those of base
types included. The instructions that load and store a field find its slot by its name alone,
whatever type the reference gives. So fields of different names are kept apart, and all fields of
one name are the first of them.
-/

namespace ManagedCode

/-! ## Records -/

/-- The object has one value for each field of its type. -/
structure Object.IsRecord (catalog : Catalog) (object : Object) : Prop where
  fields : catalog.HasFields object.type object.slots.length
  values : ∀ slot ∈ object.slots, ∃ v, slot = .value v

namespace Object

/-- An object that changes in kind stays a record. -/
theorem IsRecord.keeps {catalog : Catalog} {a b : Object} (h : a.IsRecord catalog)
    (hk : a.Keeps b) : b.IsRecord catalog where
  fields := by
    rw [hk.type, hk.length_slots]
    exact h.fields
  values := Slot.keeps_values hk.slots h.values

/-- An object that is a record stays one when more is loaded. -/
theorem IsRecord.extend {base catalog : Catalog} {object : Object} (h : object.IsRecord base)
    (he : base.Extends catalog) : object.IsRecord catalog :=
  ⟨he.hasFields h.fields, h.values⟩

end Object

namespace Machine

/-- The types of which objects are made in other forms. -/
def formed (m : Machine) : List TypeId := [m.core.string, m.core.array, m.core.list]

/-- A new object of a type that is made in no other form is a record. -/
theorem isRecord_initial {m : Machine} {type : TypeId} (hk : type.index < m.catalog.types.size)
    (ht : type ∉ m.formed) : Object.IsRecord m.catalog ⟨type, Exec.initialSlots m type⟩ := by
  simp only [formed, List.mem_cons, List.not_mem_nil, or_false, not_or] at ht
  have hslots : Exec.initialSlots m type =
      (m.catalog.type type).fields.map fun field => .value (defaultValue field.fieldType) := by
    rw [Exec.initialSlots, if_neg ht.2.2, if_neg ht.1]
  constructor
  · exact ⟨hk, by rw [hslots, List.length_map]⟩
  · intro slot hm
    rw [hslots] at hm
    obtain ⟨field, -, rfl⟩ := List.mem_map.mp hm
    exact ⟨_, rfl⟩

/-- The machine has the built-in types, and its objects of other types are records. -/
structure HoldsRecords (m : Machine) : Prop where
  core : m.core = Library.coreTypes
  catalog : Library.catalog.Extends m.catalog
  objects : ∀ object ∈ m.heap.objects, object.type ∉ m.formed → object.IsRecord m.catalog

section Records

variable {m m' : Machine}

/-- A new machine has no objects. -/
theorem holdsRecords_new (options : Options) (files : Files) :
    HoldsRecords (Machine.new options files) where
  core := rfl
  catalog := .refl _
  objects := by
    intro object hm
    have hnone : (Machine.new options files).heap.objects = [] := Heap.objects_empty _
    rw [hnone] at hm
    cases hm

/-- What is needed to go on from a machine that holds records. -/
theorem HoldsRecords.proceed (h : m.HoldsRecords) (hcatalog : m.catalog.Extends m'.catalog)
    (hcore : m'.core = m.core)
    (ho : ∀ object ∈ m'.heap.objects, object.type ∉ m.formed → object.IsRecord m.catalog) :
    m'.HoldsRecords where
  core := hcore.trans h.core
  catalog := h.catalog.trans hcatalog
  objects object hm ht := (ho object hm (by rwa [formed, ← hcore])).extend hcatalog

/-- What programs make is a record, unless it is of one of the three special types. -/
theorem Makes.isRecord {object : Object} (hm : m.Makes object) (h : m.HoldsRecords)
    (ht : object.type ∉ m.formed) : object.IsRecord m.catalog := by
  cases hm with
  | string text => simp [formed] at ht
  | array elements hlimit => simp [formed] at ht
  | list items => simp [formed] at ht
  | constructed id => exact isRecord_initial (Library.declaringType h.catalog id).1 ht

/-- A record may be added. -/
theorem HoldsRecords.add (h : m.HoldsRecords) {stored : Object}
    (hs : stored.type ∉ m.formed → stored.IsRecord m.catalog) :
    HoldsRecords { m with heap := (m.heap.add stored).2 } := by
  refine h.proceed (.refl _) rfl fun object ho ht => ?_
  rcases Heap.mem_objects_add ho with rfl | ho
  · exact hs ht
  · exact h.objects object ho ht

/-- One change that a program makes keeps records. -/
theorem Change.holdsRecords (hc : Change m m') (h : m.HoldsRecords) : m'.HoldsRecords := by
  cases hc with
  | calls calls => exact h.proceed (.refl _) rfl h.objects
  | statics statics => exact h.proceed (.refl _) rfl h.objects
  | write text => exact h.proceed (.refl _) rfl h.objects
  | files files => exact h.proceed (.refl _) rfl h.objects
  | make hr hm => exact h.add (hm.isRecord h)
  | edit hf =>
    refine h.proceed (.refl _) rfl fun object ho ht => ?_
    rcases Heap.mem_objects_modify ho with ho | ⟨before, hbefore, rfl⟩
    · exact h.objects object ho ht
    · have hkeeps := hf before hbefore
      have hrecord := h.objects before (Heap.mem_objects_of_get? hbefore) (hkeeps.type ▸ ht)
      exact hrecord.keeps hkeeps

end Records

/-! ## Machines that come about -/

/-- The machines that come about from a new one when modules are loaded, garbage is removed, objects
of known types are made, and changes are made as programs make them, in any order. -/
inductive Evolves (options : Options) (files : Files) : Machine → Prop
  | new : Evolves options files (Machine.new options files)
  | load {m : Machine} (source : ModuleSource) (h : Evolves options files m) :
      Evolves options files (Outcome.machine (m.loadModule source))
  | collectGarbage {m : Machine} (h : Evolves options files m) :
      Evolves options files m.collectGarbage.2
  | instantiate {m : Machine} (type : TypeId) (hk : type.index < m.catalog.types.size)
      (h : Evolves options files m) :
      Evolves options files (Outcome.machine (Exec.instantiate type m))
  | change {m m' : Machine} (hc : Change m m') (h : Evolves options files m) :
      Evolves options files m'

section Evolving

variable {options : Options} {files : Files} {m m' : Machine}

/-- Changes of programs lead from an evolved machine to another one. -/
theorem Evolves.leads (h : Evolves options files m) (hl : m.Leads m') :
    Evolves options files m' := by
  induction hl with
  | refl => exact h
  | tail _ hc ih => exact .change hc ih

/-- Whatever a host does comes about, and whatever a call that it makes passes. -/
theorem Evolves.act (h : Evolves options files m) {action : Action} {fuel : Nat}
    {outcome : Outcome (List Value)}
    (hk : ∀ type, action = .instantiate type → type.index < m.catalog.types.size)
    (hr : action.run fuel m = some outcome) : Evolves options files outcome.machine := by
  obtain ⟨image, -, hm⟩ | ⟨-, hm⟩ | ⟨type, rfl, hm⟩ | hleads := Action.run_cases hr
  · exact hm ▸ .load image.source h
  · exact hm ▸ .collectGarbage h
  · exact hm ▸ .instantiate type (hk type rfl) h
  · exact h.leads hleads

/-- The machines within a run have evolved too. -/
theorem Evolves.within (h : Evolves options files m) {work : Work} (hp : Passes work m m') :
    Evolves options files m' :=
  h.leads hp.leads

/-- On every machine that has evolved, the objects of declared types are records. -/
theorem Evolves.holdsRecords (h : Evolves options files m) : m.HoldsRecords := by
  induction h with
  | new => exact holdsRecords_new options files
  | load source _ ih =>
    rw [machine_loadModule]
    exact ih.proceed (Load.announced_addModule source _).extension rfl ih.objects
  | collectGarbage _ ih =>
    exact ih.proceed (.refl _) rfl fun object ho => ih.objects object (Heap.mem_objects_collect ho)
  | @instantiate m type hk _ ih =>
    have hmake : Exec.instantiate type m = Exec.store ⟨type, Exec.initialSlots m type⟩ m := rfl
    rw [hmake, Exec.store]
    split
    · exact ih
    · exact ih.add (isRecord_initial hk)
  | change hc _ ih => exact hc.holdsRecords ih

/-- The types of which objects are made in other forms are built in. -/
theorem HoldsRecords.isBuiltin (h : m.HoldsRecords) {type : TypeId} (ht : type ∈ m.formed) :
    (m.catalog.assembly (m.catalog.type type).assembly).isBuiltin = true := by
  have hall : ∀ type ∈ [Library.coreTypes.string, Library.coreTypes.array, Library.coreTypes.list],
      type.index < Library.catalog.types.size ∧
        (Library.catalog.type type).assembly.index < Library.catalog.assemblies.size ∧
        (Library.catalog.assembly (Library.catalog.type type).assembly).isBuiltin = true := by
    decide +kernel
  rw [formed, h.core] at ht
  obtain ⟨htype, hassembly, hbuiltin⟩ := hall type ht
  rwa [h.catalog.type_eq htype, h.catalog.assembly_eq hassembly]

/-- An object of a type that is not built in is a record. -/
theorem Evolves.isRecord (h : Evolves options files m) {handle : Handle} {object : Object}
    (hg : m.heap.get? handle = some object)
    (hb : (m.catalog.assembly (m.catalog.type object.type).assembly).isBuiltin = false) :
    object.IsRecord m.catalog := by
  refine h.holdsRecords.objects object (Heap.mem_objects_of_get? hg) fun ht => ?_
  rw [h.holdsRecords.isBuiltin ht] at hb
  cases hb

end Evolving

end Machine

/-! ## Slots by name -/

/-- Two names that have one slot are one name. -/
theorem Catalog.fieldSlot_inj {catalog : Catalog} {type : TypeId} {a b : String} {slot : Nat}
    (ha : catalog.fieldSlot type a = .ok slot) (hb : catalog.fieldSlot type b = .ok slot) :
    a = b := by
  have hname : ∀ {name}, catalog.fieldSlot type name = .ok slot →
      ∃ field, (catalog.type type).fields[slot]? = some field ∧ field.name = name := by
    intro name h
    unfold fieldSlot at h
    split at h
    · rename_i found hfound
      cases h
      obtain ⟨hlt, hfield, -⟩ := List.findIdx?_eq_some_iff_getElem.mp hfound
      exact ⟨_, List.getElem?_eq_getElem hlt, by simpa using hfield⟩
    · cases h
  obtain ⟨field, hfield, rfl⟩ := hname ha
  obtain ⟨other, hother, rfl⟩ := hname hb
  rw [hfield] at hother
  cases hother
  rfl

namespace Machine

/-- The machine with the value in a slot of an object replaced. -/
def withSlot (m : Machine) (handle : Handle) (slot : Nat) (value : Value) : Machine :=
  { m with heap := m.heap.modify handle (·.setSlot slot (.value value)) }

section Slots

variable {m : Machine} {handle : Handle} {object : Object} {name : String} {slot : Nat}
  {value : Value}

/-- A field is read from the slot that its name has in the type of the object. -/
theorem fieldOf_eq_ok_iff (hg : m.heap.get? handle = some object) :
    m.fieldOf handle name = .ok (slot, value) ↔
      m.catalog.fieldSlot object.type name = .ok slot ∧
        object.slot? slot = some (.value value) := by
  unfold fieldOf
  rw [object_of_get? hg]
  simp only [bind, Except.bind]
  cases m.catalog.fieldSlot object.type name with
  | error e =>
    have hfailed : (Except.error e : Except HeapError Nat).mapError Fault.heap = .error (.heap e) :=
      rfl
    simp [hfailed]
  | ok found =>
    have hfound : (Except.ok found).mapError Fault.heap = .ok found := rfl
    simp only [hfound, Except.ok.injEq]
    split
    · rename_i w hslot
      simp only [pure, Except.pure, Except.ok.injEq, Prod.mk.injEq]
      constructor
      · rintro ⟨rfl, rfl⟩
        exact ⟨rfl, hslot⟩
      · rintro ⟨rfl, hsame⟩
        rw [hslot] at hsame
        cases hsame
        exact ⟨rfl, rfl⟩
    · rename_i hnone
      constructor
      · intro h
        cases h
      · rintro ⟨rfl, hslot⟩
        exact absurd hslot (hnone value)

/-- A record has a value in every field. -/
theorem exists_fieldOf (hg : m.heap.get? handle = some object)
    (hr : object.IsRecord m.catalog)
    (hf : ∃ field ∈ (m.catalog.type object.type).fields, field.name = name) :
    ∃ slot value, m.fieldOf handle name = .ok (slot, value) := by
  obtain ⟨field, hm, rfl⟩ := hf
  obtain ⟨slot, hslot⟩ := Catalog.exists_slot hm
  have hlt : slot < object.slots.length := by
    obtain ⟨hlt, -⟩ := List.findIdx?_eq_some_iff_getElem.mp hslot
    rwa [hr.fields.2] at hlt
  obtain ⟨value, hvalue⟩ := hr.values _ (List.getElem_mem hlt)
  refine ⟨slot, value, (fieldOf_eq_ok_iff hg).mpr ⟨?_, ?_⟩⟩
  · simp only [Catalog.fieldSlot, hslot]
  · rw [Object.slot?, List.getElem?_eq_getElem hlt, hvalue]

/-- The object has the value that was stored in its slot. -/
theorem get?_withSlot (hg : m.heap.get? handle = some object) :
    (m.withSlot handle slot value).heap.get? handle =
      some (object.setSlot slot (.value value)) := by
  simp [withSlot, Heap.get?_modify, hg]

/-- What was stored in a slot is found by every name that has the slot. -/
theorem fieldOf_withSlot_same {old : Value} (h : m.fieldOf handle name = .ok (slot, old))
    (hg : m.heap.get? handle = some object) :
    (m.withSlot handle slot value).fieldOf handle name = .ok (slot, value) := by
  obtain ⟨hslot, hold⟩ := (fieldOf_eq_ok_iff hg).mp h
  refine (fieldOf_eq_ok_iff (get?_withSlot hg)).mpr ⟨hslot, ?_⟩
  obtain ⟨hlt, -⟩ := List.getElem?_eq_some_iff.mp hold
  simp [Object.slot?, Object.setSlot, hlt]

/-- The other slots stay as they are. -/
theorem fieldOf_withSlot_of_ne {other : Nat} {kept : Value}
    (h : m.fieldOf handle name = .ok (other, kept)) (hg : m.heap.get? handle = some object)
    (hne : slot ≠ other) :
    (m.withSlot handle slot value).fieldOf handle name = .ok (other, kept) := by
  obtain ⟨hslot, hkept⟩ := (fieldOf_eq_ok_iff hg).mp h
  refine (fieldOf_eq_ok_iff (get?_withSlot hg)).mpr ⟨hslot, ?_⟩
  rw [← hkept]
  simp [Object.slot?, Object.setSlot, hne]

end Slots

end Machine

/-! ## Instructions -/

namespace Exec

/-- Storing a field: the reference and the value are pushed, and `stfld` takes both. -/
def storeField (handle : Handle) (field : FieldRef) (value : Value) (offset : UInt32) : Exec Flow := do
  push (.ref handle)
  push value
  step ⟨.stfld, offset, some (.field field)⟩

/-- Loading a field: the reference is pushed, and `ldfld` puts the value in its place. -/
def loadField (handle : Handle) (field : FieldRef) (offset : UInt32) : Exec Value := do
  push (.ref handle)
  let _ ← step ⟨.ldfld, offset, some (.field field)⟩
  pop

section Instructions

variable {m : Machine} {handle : Handle} {field : FieldRef} {offset : UInt32} {slot : Nat}
  {value : Value}

/-- A reference that was pushed is popped. -/
theorem popHandle_pushed (hm : m.calls.frames ≠ []) :
    popHandle (m.pushed (.ref handle)) = .ok handle m :=
  bind_of_ok _ (pop_pushed hm)

/-- A value is stored in a field if there is one. -/
theorem setField_eq_ok_iff {name : String} {m' : Machine} :
    setField handle name value m = .ok () m' ↔
      ∃ slot old, m.fieldOf handle name = .ok (slot, old) ∧ m' = m.withSlot handle slot value := by
  constructor
  · intro h
    obtain ⟨⟨slot, old⟩, m₁, hfound, hset⟩ := sequence_eq_ok_iff.mp h
    obtain ⟨hfield, rfl⟩ := query_eq_ok_iff.mp hfound
    cases hset
    exact ⟨slot, old, hfield, rfl⟩
  · rintro ⟨slot, old, hfield, rfl⟩
    exact sequence_eq_ok_iff.mpr ⟨(slot, old), m, query_eq_ok_iff.mpr ⟨hfield, rfl⟩, rfl⟩

/-- Storing a field that can be read stores the value in its slot. -/
theorem storeField_eq_ok (hm : m.calls.frames ≠ []) {old : Value}
    (h : m.fieldOf handle field.name = .ok (slot, old)) :
    storeField handle field value offset m = .ok .next (m.withSlot handle slot value) := by
  have hreference : (m.pushed (.ref handle)).calls.frames ≠ [] := frames_pushed hm
  have hset : setField handle field.name value m = .ok () (m.withSlot handle slot value) :=
    setField_eq_ok_iff.mpr ⟨slot, old, h, rfl⟩
  have hperform : perform (.storeField field) ((m.pushed (.ref handle)).pushed value) =
      .ok () (m.withSlot handle slot value) := by
    rw [perform, bind_of_ok _ (pop_pushed hreference), bind_of_ok _ (popHandle_pushed hm), hset]
  rw [storeField, bind_of_ok _ (push_eq_ok hm), bind_of_ok _ (push_eq_ok hreference)]
  exact bind_of_ok _ hperform

/-- Loading a field that can be read gives the value of its slot. -/
theorem loadField_eq_ok (hm : m.calls.frames ≠ [])
    (h : m.fieldOf handle field.name = .ok (slot, value)) :
    loadField handle field offset m = .ok value m := by
  have hquery : query (·.fieldOf handle field.name) m = .ok (slot, value) m := by
    rw [query_apply, h]
  have hperform : perform (.loadField field) (m.pushed (.ref handle)) =
      .ok () (m.pushed value) := by
    rw [perform, bind_of_ok _ (popHandle_pushed hm), bind_of_ok _ hquery]
    exact push_eq_ok hm
  have hstep : step ⟨.ldfld, offset, some (.field field)⟩ (m.pushed (.ref handle)) =
      .ok .next (m.pushed value) :=
    bind_of_ok _ hperform
  rw [loadField, bind_of_ok _ (push_eq_ok hm), bind_of_ok _ hstep]
  exact pop_pushed hm

end Instructions

end Exec

open Exec Machine in
/-- Fields of different names are distinct storage. Whenever a method runs, storing a value in a
field of an object of a loaded type succeeds; from then on a reference to the name of the field,
whatever type it gives, loads that value, and one to any other name of the layout loads what it
loaded before. -/
theorem fields_stored_by_name {options : Options} {files : Files} {m : Machine}
    (h : Evolves options files m) (hm : m.calls.frames ≠ []) {handle : Handle} {object : Object}
    (hg : m.heap.get? handle = some object)
    (hb : (m.catalog.assembly (m.catalog.type object.type).assembly).isBuiltin = false)
    {field : FieldRef}
    (hf : ∃ f ∈ (m.catalog.type object.type).fields, f.name = field.name) (value : Value) :
    ∃ stored, (∀ offset, storeField handle field value offset m = .ok .next stored) ∧
      (∀ same : FieldRef, same.name = field.name →
        ∀ offset, loadField handle same offset stored = .ok value stored) ∧
      ∀ other : FieldRef, other.name ≠ field.name →
        (∃ f ∈ (m.catalog.type object.type).fields, f.name = other.name) →
        ∃ kept, (∀ offset, loadField handle other offset m = .ok kept m) ∧
          ∀ offset, loadField handle other offset stored = .ok kept stored := by
  have hrecord := h.isRecord hg hb
  obtain ⟨slot, old, hold⟩ := exists_fieldOf hg hrecord hf
  have hframes : (m.withSlot handle slot value).calls.frames ≠ [] := hm
  refine ⟨m.withSlot handle slot value, fun offset => storeField_eq_ok hm hold, ?_, ?_⟩
  · intro same hname offset
    exact loadField_eq_ok hframes (hname ▸ fieldOf_withSlot_same hold hg)
  · intro other hname hother
    obtain ⟨slot', kept, hkept⟩ := exists_fieldOf hg hrecord hother
    have hne : slot ≠ slot' := by
      rintro rfl
      have hslot := ((fieldOf_eq_ok_iff hg).mp hold).1
      have hslot' := ((fieldOf_eq_ok_iff hg).mp hkept).1
      exact hname (Catalog.fieldSlot_inj hslot' hslot)
    exact ⟨kept, fun offset => loadField_eq_ok hm hkept,
      fun offset => loadField_eq_ok hframes (fieldOf_withSlot_of_ne hkept hg hne)⟩

/-- A machine on which a method runs after the host made an object of a type of a module. -/
def Machine.running (image : Image) (type : TypeId) : Machine :=
  let loaded := Outcome.machine ((Machine.new {} .empty).load image)
  let made := Outcome.machine (Exec.instantiate type loaded)
  { made with calls := { made.calls with frames := [.start none ⟨0⟩ [] 0] } }

/-- The own field of a derived type is stored, and the inherited one keeps its value. -/
theorem fields_stored_by_name_derived :
    let m := Machine.running shapes ⟨15⟩
    let sides : FieldRef := ⟨⟨"Shapes", "", "Shape"⟩, "sides", some (.system "Int32")⟩
    let name : FieldRef := ⟨⟨"Shapes", "", "Named"⟩, "name", some (.system "String")⟩
    ∃ stored, (∀ offset, Exec.storeField ⟨0, 0⟩ name (.ref ⟨0, 0⟩) offset m = .ok .next stored) ∧
      (∀ offset, Exec.loadField ⟨0, 0⟩ name offset stored = .ok (.ref ⟨0, 0⟩) stored) ∧
      ∃ kept, (∀ offset, Exec.loadField ⟨0, 0⟩ sides offset m = .ok kept m) ∧
        ∀ offset, Exec.loadField ⟨0, 0⟩ sides offset stored = .ok kept stored := by
  intro m sides name
  have hm : Machine.Evolves {} .empty m :=
    .change (.calls _ _) (.instantiate ⟨15⟩ (by decide +kernel) (.load shapes.source .new))
  have hg : m.heap.get? ⟨0, 0⟩ = some ⟨⟨15⟩, [.value (.int32 0), .value .null]⟩ := by
    decide +kernel
  have hname : ∃ f ∈ (m.catalog.type ⟨15⟩).fields, f.name = name.name := by decide +kernel
  obtain ⟨stored, hstore, hsame, hother⟩ := fields_stored_by_name hm (by decide +kernel) hg
    (by decide +kernel) hname (.ref ⟨0, 0⟩)
  exact ⟨stored, hstore, hsame name rfl, hother sides (by decide +kernel) (by decide +kernel)⟩

/-- A module in which a derived type has a field of the same name as its base type. -/
def redeclaring : Image where
  name := "App"
  types := [
    ⟨"", "Parent", none, ["int32 x"], [], []⟩,
    ⟨"", "Derived", some "Parent", ["int32 x"], [], []⟩]
  strings := .empty
  members := .empty

/-- An object has a field for each of both declarations, and storing the one of the derived type
changes what is loaded for the one of the base type. -/
theorem redeclared_field_shared :
    let parent : TypeId := ⟨14⟩
    let derived : TypeId := ⟨15⟩
    let m := Machine.running redeclaring derived
    let inherited : FieldRef := ⟨⟨"App", "", "Parent"⟩, "x", some (.system "Int32")⟩
    let own : FieldRef := ⟨⟨"App", "", "Derived"⟩, "x", some (.system "Int32")⟩
    (m.catalog.type derived).fields =
        [⟨"x", parent, some (.system "Int32")⟩, ⟨"x", derived, some (.system "Int32")⟩] ∧
      Outcome.result? (Exec.loadField ⟨0, 0⟩ inherited 0 m) = some (.int32 0) ∧
      Outcome.result? (Exec.loadField ⟨0, 0⟩ inherited 0
        (Outcome.machine (Exec.storeField ⟨0, 0⟩ own (.int32 7) 0 m))) = some (.int32 7) := by
  intro parent derived m inherited own
  refine ⟨?_, ?_, ?_⟩
  all_goals decide +kernel

end ManagedCode
