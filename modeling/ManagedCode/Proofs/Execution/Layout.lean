import ManagedCode.Proofs.Catalog.Extension
import ManagedCode.Proofs.Execution.Attainability
import ManagedCode.Proofs.Execution.Changes

/-!
# The layout of objects

Every live object has one slot for each field of its type. A string is one text, a list its items,
an array its elements and a field for their number, and every other object consists of values. A
program cannot break this, since it changes objects only in kind and makes them only in these forms.
Loading cannot break it either, since it adds fields only to types that no object has yet.
-/

namespace ManagedCode

/-! ## Fields -/

namespace Catalog

/-- The type is in the catalog and has so many fields. -/
def HasFields (catalog : Catalog) (id : TypeId) (count : Nat) : Prop :=
  id.index < catalog.types.size ∧ (catalog.type id).fields.length = count

instance (catalog : Catalog) (id : TypeId) (count : Nat) : Decidable (catalog.HasFields id count) :=
  inferInstanceAs (Decidable (_ ∧ _))

/-- The fields of a type are not added to later. -/
theorem Extends.hasFields {base catalog : Catalog} (h : base.Extends catalog) {id : TypeId}
    {count : Nat} (hf : base.HasFields id count) : catalog.HasFields id count := by
  have hsize := h.size_types
  have htype := h.type_eq hf.1
  refine ⟨?_, ?_⟩
  · have hlt := hf.1
    omega
  · rw [htype]
    exact hf.2

/-- The name of a field has a slot. -/
theorem exists_slot {fields : List Field} {field : Field} (h : field ∈ fields) :
    ∃ slot, fields.findIdx? (fun f => f.name == field.name) = some slot := by
  rw [← Option.isSome_iff_exists, List.findIdx?_isSome, List.any_eq_true]
  exact ⟨field, h, beq_self_eq_true _⟩

/-- A type of an assembly of the catalog keeps its name. -/
theorem Extends.fullName_eq {base catalog : Catalog} (h : base.Extends catalog) {id : TypeId}
    (hi : id.index < base.types.size)
    (ha : (base.type id).assembly.index < base.assemblies.size) :
    catalog.fullName id = base.fullName id := by
  simp only [Catalog.fullName, Catalog.typeRef, h.type_eq hi, h.assembly_eq ha]

end Catalog

namespace Library

/-- Strings have one field, their text. -/
theorem hasFields_string : catalog.HasFields coreTypes.string 1 := by decide +kernel

/-- Arrays have two fields, their elements and their length. -/
theorem hasFields_array : catalog.HasFields coreTypes.array 2 := by decide +kernel

/-- Lists have one field, their items. -/
theorem hasFields_list : catalog.HasFields coreTypes.list 1 := by decide +kernel

/-- Strings, arrays and lists are of three types. -/
theorem coreTypes_distinct :
    coreTypes.string ≠ coreTypes.array ∧ coreTypes.string ≠ coreTypes.list ∧
      coreTypes.array ≠ coreTypes.list := by
  decide +kernel

/-- Arrays have no constructor, nor any other method. -/
theorem declaringType_of_mem {method : Method} (h : method ∈ catalog.methods) :
    method.declaringType.index < catalog.types.size ∧
      method.declaringType ≠ coreTypes.array := by
  have hall : ∀ method ∈ catalog.methods, method.declaringType.index < catalog.types.size ∧
      method.declaringType ≠ coreTypes.array := by
    decide +kernel
  exact hall method h

variable {more : Catalog}

/-- Whatever was loaded, every method is declared by a type of the catalog, and none by the type of
arrays. -/
theorem declaringType (h : catalog.Extends more) (id : MethodId) :
    (more.method id).declaringType.index < more.types.size ∧
      (more.method id).declaringType ≠ coreTypes.array := by
  have hsize := h.size_types
  have harray := hasFields_array.1
  by_cases hbuiltin : id.index < catalog.methods.size
  · have hmem : catalog.method id ∈ catalog.methods := by
      unfold Catalog.method
      rw [Array.getD_eq_getD_getElem?, Array.getElem?_eq_getElem hbuiltin]
      exact Array.getElem_mem hbuiltin
    have hdeclared := declaringType_of_mem hmem
    rw [h.method_eq hbuiltin]
    exact ⟨by omega, hdeclared.2⟩
  · cases hfound : more.methods[id.index]? with
    | some method =>
      have hdeclared := h.declared _ _ hfound (Nat.le_of_not_lt hbuiltin)
      have hmethod : more.method id = method := by
        rw [Catalog.method, Array.getD_eq_getD_getElem?, hfound, Option.getD_some]
      rw [hmethod]
      refine ⟨hdeclared.2, ?_⟩
      intro heq
      rw [heq] at hdeclared
      omega
    | none =>
      have hmethod : more.method id = default := by
        rw [Catalog.method, Array.getD_eq_getD_getElem?, hfound, Option.getD_none]
      have hzero : (default : Method).declaringType = ⟨0⟩ := rfl
      have hne : (⟨0⟩ : TypeId) ≠ coreTypes.array := by decide +kernel
      rw [hmethod, hzero]
      exact ⟨by show 0 < _; omega, hne⟩

end Library

/-! ## Objects -/

/-- The object is laid out as its type says. -/
structure Object.LaidOut (m : Machine) (object : Object) : Prop where
  /-- There is one slot for each field. -/
  fields : m.catalog.HasFields object.type object.slots.length
  string : object.type = m.core.string → ∃ text, object.slots = [.text text]
  array : object.type = m.core.array →
    ∃ elements length, object.slots = [.array elements, .value length] ∧
      elements.size ≤ m.arrayLimit
  list : object.type = m.core.list → ∃ items, object.slots = [.list items]
  /-- Every other object consists of values. -/
  other : object.type ∉ [m.core.string, m.core.array, m.core.list] →
    ∀ slot ∈ object.slots, ∃ v, slot = .value v

namespace Slot

/-- A slot with a text keeps it. -/
theorem keeps_text {text : String} {slots : List Slot}
    (h : List.Forall₂ Slot.Keeps [.text text] slots) : slots = [.text text] := by
  cases h with
  | cons hs hrest =>
    cases hs
    cases hrest
    rfl

/-- A slot with the items of a list always has such. -/
theorem keeps_list {items : Array Value} {slots : List Slot}
    (h : List.Forall₂ Slot.Keeps [.list items] slots) : ∃ items', slots = [.list items'] := by
  cases h with
  | cons hs hrest =>
    cases hs
    cases hrest
    exact ⟨_, rfl⟩

/-- The slots of an array always have as many elements and a value behind them. -/
theorem keeps_array {elements : Elements} {length : Value} {slots : List Slot}
    (h : List.Forall₂ Slot.Keeps [.array elements, .value length] slots) :
    ∃ elements' length', slots = [.array elements', .value length'] ∧
      elements'.size = elements.size := by
  cases h with
  | cons hs hrest =>
    cases hs with
    | array hk hsize =>
      cases hrest with
      | cons hs hrest =>
        cases hs
        cases hrest
        exact ⟨_, _, rfl, hsize⟩

/-- Slots with values always have such. -/
theorem keeps_values {before after : List Slot} (h : List.Forall₂ Slot.Keeps before after)
    (hv : ∀ slot ∈ before, ∃ v, slot = .value v) : ∀ slot ∈ after, ∃ v, slot = .value v := by
  induction h with
  | nil => simp
  | cons hs _ ih =>
    intro slot hm
    rcases List.mem_cons.mp hm with rfl | hm
    · obtain ⟨v, rfl⟩ := hv _ List.mem_cons_self
      cases hs
      exact ⟨_, rfl⟩
    · exact ih (fun slot hm => hv slot (List.mem_cons_of_mem _ hm)) slot hm

end Slot

namespace Object

/-- An object that changes in kind stays laid out. -/
theorem LaidOut.keeps {m : Machine} {a b : Object} (h : a.LaidOut m) (hk : a.Keeps b) :
    b.LaidOut m := by
  have hslots := hk.slots
  constructor
  · rw [hk.type, hk.length_slots]
    exact h.fields
  · intro ht
    obtain ⟨text, hs⟩ := h.string (hk.type.symm.trans ht)
    exact ⟨text, Slot.keeps_text (hs ▸ hslots)⟩
  · intro ht
    obtain ⟨elements, length, hs, hlimit⟩ := h.array (hk.type.symm.trans ht)
    obtain ⟨elements', length', hs', hsize⟩ := Slot.keeps_array (hs ▸ hslots)
    exact ⟨elements', length', hs', hsize ▸ hlimit⟩
  · intro ht
    obtain ⟨items, hs⟩ := h.list (hk.type.symm.trans ht)
    exact Slot.keeps_list (hs ▸ hslots)
  · rw [hk.type]
    intro ht
    exact Slot.keeps_values hslots (h.other ht)

/-- An object stays laid out when the catalog is extended. -/
theorem LaidOut.extend {m m' : Machine} {object : Object} (h : object.LaidOut m)
    (hcatalog : m.catalog.Extends m'.catalog) (hcore : m'.core = m.core)
    (hoptions : m'.options = m.options) : object.LaidOut m' := by
  have hlimit : m'.arrayLimit = m.arrayLimit := by rw [Machine.arrayLimit, hoptions]; rfl
  constructor
  · exact hcatalog.hasFields h.fields
  · rw [hcore]
    exact h.string
  · rw [hcore, hlimit]
    exact h.array
  · rw [hcore]
    exact h.list
  · rw [hcore]
    exact h.other

end Object

/-! ## Machines -/

namespace Machine

/-- The machine has the built-in types and the options, and all its objects are laid out. -/
structure LaidOut (options : Options) (m : Machine) : Prop where
  options : m.options = options
  core : m.core = Library.coreTypes
  catalog : Library.catalog.Extends m.catalog
  objects : ∀ object ∈ m.heap.objects, object.LaidOut m

variable {options : Options} {m m' : Machine}

/-- What is needed to go on from a laid out machine. -/
theorem LaidOut.proceed (h : LaidOut options m) (hcatalog : m.catalog.Extends m'.catalog)
    (hcore : m'.core = m.core) (hoptions : m'.options = m.options)
    (hobjects : ∀ object ∈ m'.heap.objects, object.LaidOut m) : LaidOut options m' where
  options := hoptions.trans h.options
  core := hcore.trans h.core
  catalog := h.catalog.trans hcatalog
  objects object hm := (hobjects object hm).extend hcatalog hcore hoptions

/-- A new machine is laid out, since it has no objects. -/
theorem laidOut_new (options : Options) (files : Files) :
    LaidOut options (Machine.new options files) where
  options := rfl
  core := rfl
  catalog := .refl _
  objects := by
    intro object hm
    have hnone : (Machine.new options files).heap.objects = [] := Heap.objects_empty _
    rw [hnone] at hm
    cases hm

/-- The built-in types have the fields that the objects made of them have slots for. -/
theorem LaidOut.hasFields (h : LaidOut options m) :
    m.catalog.HasFields m.core.string 1 ∧ m.catalog.HasFields m.core.array 2 ∧
      m.catalog.HasFields m.core.list 1 := by
  rw [h.core]
  refine ⟨?_, ?_, ?_⟩
  · exact h.catalog.hasFields Library.hasFields_string
  · exact h.catalog.hasFields Library.hasFields_array
  · exact h.catalog.hasFields Library.hasFields_list

/-- The three types of strings, arrays and lists stay distinct. -/
theorem LaidOut.distinct (h : LaidOut options m) :
    m.core.string ≠ m.core.array ∧ m.core.string ≠ m.core.list ∧ m.core.array ≠ m.core.list := by
  rw [h.core]
  exact Library.coreTypes_distinct

/-- A string object is laid out. -/
theorem LaidOut.string (h : LaidOut options m) (text : String) :
    Object.LaidOut m ⟨m.core.string, [.text text]⟩ := by
  obtain ⟨harray, hlist, -⟩ := h.distinct
  exact ⟨h.hasFields.1, fun _ => ⟨text, rfl⟩, fun ht => absurd ht harray,
    fun ht => absurd ht hlist, fun ht => by simp at ht⟩

/-- A list object is laid out. -/
theorem LaidOut.list (h : LaidOut options m) (items : Array Value) :
    Object.LaidOut m ⟨m.core.list, [.list items]⟩ := by
  obtain ⟨-, hstring, harray⟩ := h.distinct
  exact ⟨h.hasFields.2.2, fun ht => absurd ht.symm hstring, fun ht => absurd ht.symm harray,
    fun _ => ⟨items, rfl⟩, fun ht => by simp at ht⟩

/-- An array object is laid out if the limit allows its elements. -/
theorem LaidOut.array (h : LaidOut options m) {elements : Elements}
    (hlimit : elements.size ≤ m.arrayLimit) (length : Value) :
    Object.LaidOut m ⟨m.core.array, [.array elements, .value length]⟩ := by
  obtain ⟨hstring, -, hlist⟩ := h.distinct
  exact ⟨h.hasFields.2.1, fun ht => absurd ht.symm hstring,
    fun _ => ⟨elements, length, rfl, hlimit⟩, fun ht => absurd ht hlist, fun ht => by simp at ht⟩

/-- A new object of a type other than that of arrays is laid out. -/
theorem LaidOut.initial (h : LaidOut options m) {type : TypeId}
    (hk : type.index < m.catalog.types.size) (ha : type ≠ m.core.array) :
    Object.LaidOut m ⟨type, Exec.initialSlots m type⟩ := by
  unfold Exec.initialSlots
  by_cases hl : type = m.core.list
  · rw [if_pos hl, hl]
    exact h.list #[]
  · by_cases hs : type = m.core.string
    · rw [if_neg hl, if_pos hs, hs]
      exact h.string ""
    · rw [if_neg hl, if_neg hs]
      refine ⟨⟨hk, by simp⟩, fun ht => absurd ht hs, fun ht => absurd ht ha,
        fun ht => absurd ht hl, ?_⟩
      intro _ slot hm
      obtain ⟨field, _, rfl⟩ := List.mem_map.mp hm
      exact ⟨_, rfl⟩

/-- No method is declared by the type of arrays. -/
theorem LaidOut.declaringType (h : LaidOut options m) (id : MethodId) :
    (m.catalog.method id).declaringType.index < m.catalog.types.size ∧
      (m.catalog.method id).declaringType ≠ m.core.array :=
  h.core ▸ Library.declaringType h.catalog id

/-- Every object that a program makes is laid out. -/
theorem Makes.laidOut {object : Object} (hm : m.Makes object) (h : LaidOut options m) :
    object.LaidOut m := by
  cases hm with
  | string text => exact h.string text
  | array elements hlimit => exact h.array hlimit _
  | list items => exact h.list items
  | constructed id =>
    obtain ⟨hknown, hne⟩ := h.declaringType id
    exact h.initial hknown hne

/-- A laid out object may be stored. -/
theorem LaidOut.add (h : LaidOut options m) {stored : Object} (hs : stored.LaidOut m) :
    LaidOut options { m with heap := (m.heap.add stored).2 } := by
  refine h.proceed (.refl _) rfl rfl fun object ho => ?_
  rcases Heap.mem_objects_add ho with rfl | ho
  · exact hs
  · exact h.objects object ho

/-- One change keeps all objects laid out. -/
theorem Change.laidOut (hc : Change m m') (h : LaidOut options m) : LaidOut options m' := by
  cases hc with
  | calls calls => exact h.proceed (.refl _) rfl rfl h.objects
  | statics statics => exact h.proceed (.refl _) rfl rfl h.objects
  | write text => exact h.proceed (.refl _) rfl rfl h.objects
  | files files => exact h.proceed (.refl _) rfl rfl h.objects
  | make hr hm => exact h.add (hm.laidOut h)
  | edit hf =>
    refine h.proceed (.refl _) rfl rfl fun object ho => ?_
    rcases Heap.mem_objects_modify ho with ho | ⟨before, hbefore, rfl⟩
    · exact h.objects object ho
    · exact (h.objects before (Heap.mem_objects_of_get? hbefore)).keeps (hf before hbefore)

/-- So does every sequence of changes. -/
theorem Leads.laidOut (hl : m.Leads m') (h : LaidOut options m) : LaidOut options m' :=
  hl.keeps Change.laidOut h

/-- Loading a module changes neither the objects nor the types that they have. -/
theorem LaidOut.load (h : LaidOut options m) (image : Image) :
    LaidOut options (Outcome.machine (m.load image)) := by
  rw [Machine.load, machine_loadModule]
  exact h.proceed (Load.announced_addModule image.source m.catalog).extension rfl rfl h.objects

/-- Garbage collection leaves the objects that survive as they are. -/
theorem LaidOut.collectGarbage (h : LaidOut options m) : LaidOut options m.collectGarbage.2 :=
  h.proceed (.refl _) rfl rfl fun object ho => h.objects object (Heap.mem_objects_collect ho)

/-- A new object has a slot for each field of its type, unless it is a bare array. -/
theorem LaidOut.instantiate (h : LaidOut options m) {type : TypeId}
    (hk : type.index < m.catalog.types.size) (ha : type ≠ m.core.array) :
    LaidOut options (Outcome.machine (Exec.instantiate type m)) := by
  have hmake : Exec.instantiate type m = Exec.store ⟨type, Exec.initialSlots m type⟩ m := rfl
  rw [hmake, Exec.store]
  split
  · exact h
  · exact h.add (h.initial hk ha)

end Machine

/-! ## Histories -/

open Machine

/-- The action asks for no object of a type that is not loaded, nor for an array without
elements. -/
def Action.Admissible (m : Machine) : Action → Prop
  | .instantiate type => type.index < m.catalog.types.size ∧ type ≠ m.core.array
  | _ => True

/-- Every admissible action keeps the machine laid out. -/
theorem Action.laidOut_run {action : Action} {fuel : Nat} {options : Options} {m : Machine}
    {outcome : Outcome (List Value)} (h : LaidOut options m) (ha : action.Admissible m)
    (hr : action.run fuel m = some outcome) : LaidOut options outcome.machine := by
  obtain ⟨image, -, hm⟩ | ⟨-, hm⟩ | ⟨type, rfl, hm⟩ | hleads := Action.run_cases hr
  · exact hm ▸ h.load image
  · exact hm ▸ h.collectGarbage
  · exact hm ▸ h.instantiate ha.1 ha.2
  · exact hleads.laidOut h

/-- The machines that a host gets to from a new machine by admissible actions, and those that its
calls pass on the way. -/
inductive Orderly (options : Options) (files : Files) : Machine → Prop
  | new : Orderly options files (Machine.new options files)
  | act {m : Machine} {outcome : Outcome (List Value)} (action : Action) (fuel : Nat)
      (h : Orderly options files m) (ha : action.Admissible m)
      (hr : action.run fuel m = some outcome) : Orderly options files outcome.machine
  | within {m m' : Machine} (id : MethodId) (arguments : List Value) (h : Orderly options files m)
      (hp : Passes (.call id arguments) m m') : Orderly options files m'

/-- An orderly history may go on with any admissible action. -/
theorem Orderly.advance {options : Options} {files : Files} {m : Machine}
    (h : Orderly options files m) (fuel : Nat) (action : Action) (ha : action.Admissible m) :
    Orderly options files (Action.advance fuel m action) := by
  unfold Action.advance
  cases hr : action.run fuel m with
  | none => exact h
  | some outcome => exact .act action fuel h ha hr

/-- Every machine that an orderly history leads to is laid out. -/
theorem Orderly.laidOut {options : Options} {files : Files} {m : Machine}
    (h : Orderly options files m) : LaidOut options m := by
  induction h with
  | new => exact laidOut_new options files
  | act action fuel _ ha hr ih => exact Action.laidOut_run ih ha hr
  | within id arguments _ hp ih => exact hp.leads.laidOut ih

/-- Strings, arrays and lists keep the names of their types. -/
theorem Machine.LaidOut.coreNames {options : Options} {m : Machine} (h : LaidOut options m) :
    m.catalog.fullName m.core.string = "System.String" ∧
      m.catalog.fullName m.core.array = "System.Array" ∧
      m.catalog.fullName m.core.list = "System.Collections.Generic.List`1" := by
  rw [h.core]
  refine ⟨?_, ?_, ?_⟩
  · rw [h.catalog.fullName_eq Library.hasFields_string.1 (by decide +kernel)]
    decide +kernel
  · rw [h.catalog.fullName_eq Library.hasFields_array.1 (by decide +kernel)]
    decide +kernel
  · rw [h.catalog.fullName_eq Library.hasFields_list.1 (by decide +kernel)]
    decide +kernel

/-- A number of elements that the limit allows is a 32-bit integer. -/
theorem Machine.toInt_ofNat_of_le_arrayLimit {m : Machine} {n : Nat} (h : n ≤ m.arrayLimit) :
    (Int32.ofNat n).toInt = n := by
  have hbound : n ≤ 2 ^ 31 - 1 := Nat.le_trans h (Nat.min_le_right _ _)
  exact Int32.toInt_ofNat_of_lt (by omega)

/-- In every machine of an orderly history, whatever was loaded, called, made, stored and removed,
and whatever of it failed, each live object has one slot for each field of its type. A string is one
text, a list its items, an array its elements, of which there are as many as the options and 32 bits
allow, and one value; every other object consists of values. -/
theorem objects_laid_out {options : Options} {files : Files} {m : Machine}
    (h : Orderly options files m) :
    (m.catalog.fullName m.core.string = "System.String" ∧
      m.catalog.fullName m.core.array = "System.Array" ∧
      m.catalog.fullName m.core.list = "System.Collections.Generic.List`1") ∧
    ∀ object ∈ m.heap.objects,
      object.slots.length = (m.catalog.type object.type).fields.length ∧
      (object.type = m.core.string → ∃ text, object.slots = [.text text]) ∧
      (object.type = m.core.list → ∃ items, object.slots = [.list items]) ∧
      (object.type = m.core.array → ∃ elements length,
        object.slots = [.array elements, .value length] ∧
        elements.size ≤ min options.maxArrayLength (2 ^ 31 - 1) ∧
        (Int32.ofNat elements.size).toInt = elements.size) ∧
      (object.type ∉ [m.core.string, m.core.array, m.core.list] →
        ∀ slot ∈ object.slots, ∃ v, slot = .value v) := by
  have hm := h.laidOut
  refine ⟨hm.coreNames, ?_⟩
  intro object ho
  have hobject := hm.objects object ho
  refine ⟨hobject.fields.2.symm, hobject.string, hobject.list, ?_, hobject.other⟩
  intro ht
  obtain ⟨elements, length, hs, hlimit⟩ := hobject.array ht
  refine ⟨elements, length, hs, ?_, toInt_ofNat_of_le_arrayLimit hlimit⟩
  rw [← hm.options]
  exact hlimit

/-- A module with a type and one derived from it, each with a field of its own. -/
def shapes : Image where
  name := "Shapes"
  types := [
    { nameSpace := "", name := "Shape", base := none, fields := ["int32 sides"],
      constructors := [], methods := [] },
    { nameSpace := "", name := "Named", base := some "Shape", fields := ["string name"],
      constructors := [], methods := [] }]
  strings := .empty
  members := .empty

/-- A module with two types that derive from one another, which is refused. -/
def circular : Image where
  name := "Circular"
  types := [
    { nameSpace := "", name := "Hen", base := some "Egg", fields := ["int32 age"],
      constructors := [], methods := [] },
    { nameSpace := "", name := "Egg", base := some "Hen", fields := ["int32 size"],
      constructors := [], methods := [] }]
  strings := .empty
  members := .empty

/-- A machine on which the host made an object of the derived type, had the second module refused,
and made an array. -/
def shapesMade : Machine :=
  let loaded := Action.advance 0 (Machine.new {} .empty) (.load shapes)
  let made := Action.advance 0 loaded (.instantiate ⟨15⟩)
  Action.advance 0 (Action.advance 0 made (.load circular)) (.allocArray (.zeros .int32 3))

private theorem orderly_shapesMade : Orderly {} .empty shapesMade := by
  have hnew : Orderly {} .empty (Machine.new {} .empty) := .new
  have hloaded := hnew.advance 0 (.load shapes) trivial
  have hmade := hloaded.advance 0 (.instantiate ⟨15⟩) ⟨by decide +kernel, by decide +kernel⟩
  have hrefused := hmade.advance 0 (.load circular) trivial
  exact hrefused.advance 0 (.allocArray (.zeros .int32 3)) trivial

/-- The object of the derived type has a slot for the inherited field too, and the array has three
elements. The types of the refused module are in the catalog, without their fields. -/
theorem objects_laid_out_inherited :
    shapesMade.heap.objects = [⟨⟨15⟩, [.value (.int32 0), .value .null]⟩,
      ⟨⟨9⟩, [.array (.zeros .int32 3), .value (.int32 3)]⟩] ∧
    (shapesMade.catalog.type ⟨15⟩).fields.length = 2 ∧
    (shapesMade.catalog.type ⟨16⟩).name = "Hen" ∧
    (shapesMade.catalog.type ⟨16⟩).fields = [] ∧
    (Int32.ofNat 3).toInt = (3 : Nat) := by
  have hobjects : shapesMade.heap.objects = [⟨⟨15⟩, [.value (.int32 0), .value .null]⟩,
      ⟨⟨9⟩, [.array (.zeros .int32 3), .value (.int32 3)]⟩] := by
    decide +kernel
  obtain ⟨-, hlaidOut⟩ := objects_laid_out orderly_shapesMade
  rw [hobjects] at hlaidOut
  obtain ⟨hcount, -⟩ := hlaidOut _ List.mem_cons_self
  obtain ⟨-, -, -, harray, -⟩ := hlaidOut _ (List.mem_cons_of_mem _ List.mem_cons_self)
  have htype : (⟨9⟩ : TypeId) = shapesMade.core.array := by decide +kernel
  obtain ⟨elements, length, hslots, -, hexact⟩ := harray htype
  cases hslots
  exact ⟨hobjects, hcount.symm, by decide +kernel, by decide +kernel, hexact⟩

end ManagedCode
