import Mathlib.Data.List.Forall2
import ManagedCode.Proofs.Heap.Collecting

/-!
# The live objects of a heap

`Heap.objects` lists what the entries hold, whether or not a handle is around that names it. Storing
adds one object to the list, changing replaces one by its changed form, and a collection only takes
objects away. `Object.Keeps` says how far a running program can change an object: it stays of its
type, and every slot stays what it is. A text stays the same text, an array keeps its element kind
and its length, and only the values themselves may be others.
-/

namespace ManagedCode

namespace Heap

/-- The live objects in the order of their entries. -/
def objects (heap : Heap) : List Object := heap.entries.toList.filterMap Entry.object

/-- The objects of a heap are those of its entries. -/
theorem mem_objects_iff {heap : Heap} {object : Object} :
    object ∈ heap.objects ↔
      ∃ (i : Nat) (e : Entry), heap.entries[i]? = some e ∧ e.object = some object := by
  simp only [objects, List.mem_filterMap, Array.mem_toList_iff]
  constructor
  · rintro ⟨e, he, ho⟩
    obtain ⟨i, hi⟩ := Array.mem_iff_getElem?.mp he
    exact ⟨i, e, hi, ho⟩
  · rintro ⟨i, e, hi, ho⟩
    exact ⟨e, Array.mem_of_getElem? hi, ho⟩

/-- What a handle leads to is an object of the heap. -/
theorem mem_objects_of_get? {heap : Heap} {handle : Handle} {object : Object}
    (h : heap.get? handle = some object) : object ∈ heap.objects :=
  mem_objects_iff.mpr ⟨_, _, get?_eq_some_iff.mp h, rfl⟩

/-- An empty heap has no objects. -/
theorem objects_empty (capacity : Nat) : (empty capacity).objects = [] := rfl

/-- A stored object is the only new one. -/
theorem mem_objects_add {heap : Heap} {stored object : Object}
    (h : object ∈ (heap.add stored).2.objects) : object = stored ∨ object ∈ heap.objects := by
  obtain ⟨i, e, he, ho⟩ := mem_objects_iff.mp h
  unfold add at he
  split at he
  · rename_i index free _
    simp only [Array.getElem?_modify] at he
    split at he
    · obtain ⟨old, _, rfl⟩ := Option.map_eq_some_iff.mp he
      exact Or.inl (Option.some.inj ho).symm
    · exact Or.inr (mem_objects_iff.mpr ⟨i, e, he, ho⟩)
  · simp only [Array.getElem?_push] at he
    split at he
    · cases he
      exact Or.inl (Option.some.inj ho).symm
    · exact Or.inr (mem_objects_iff.mpr ⟨i, e, he, ho⟩)

/-- A changed object is the changed form of the one that the handle named. -/
theorem mem_objects_modify {heap : Heap} {handle : Handle} {f : Object → Object} {object : Object}
    (h : object ∈ (heap.modify handle f).objects) :
    object ∈ heap.objects ∨ ∃ before, heap.get? handle = some before ∧ object = f before := by
  obtain ⟨i, e, he, ho⟩ := mem_objects_iff.mp h
  simp only [modify, Array.getElem?_modify] at he
  split at he
  · rename_i hi
    obtain ⟨⟨generation, stored⟩, hold, rfl⟩ := Option.map_eq_some_iff.mp he
    split at ho
    · rename_i hg
      obtain ⟨before, rfl, rfl⟩ := Option.map_eq_some_iff.mp ho
      have hgeneration : generation = handle.generation := eq_of_beq hg
      refine Or.inr ⟨before, get?_eq_some_iff.mpr ?_, rfl⟩
      rw [hi, hold, hgeneration]
    · exact Or.inl (mem_objects_iff.mpr ⟨i, _, hold, ho⟩)
  · exact Or.inl (mem_objects_iff.mpr ⟨i, e, he, ho⟩)

/-- A collection makes no objects. -/
theorem mem_objects_collect {heap : Heap} {roots : List Handle} {object : Object}
    (h : object ∈ (heap.collect roots).2.objects) : object ∈ heap.objects := by
  obtain ⟨i, e, he, ho⟩ := mem_objects_iff.mp h
  rw [collect_eq, entries_sweep (nodup_garbage _ _)] at he
  split at he
  · obtain ⟨old, _, rfl⟩ := Option.map_eq_some_iff.mp he
    cases ho
  · exact mem_objects_iff.mpr ⟨i, e, he, ho⟩

/-- Storing leaves every live handle alone, also in a heap with more entries than 32 bits can
number. -/
theorem get?_add_of_get? {heap : Heap} (hw : heap.WellFormed) {stored object : Object}
    {handle : Handle} (h : heap.get? handle = some object) :
    (heap.add stored).2.get? handle = some object := by
  have he := get?_eq_some_iff.mp h
  rw [get?_eq_some_iff]
  unfold add
  split
  · rename_i index free hf
    have hempty := (hw.mem_free index).mp (by rw [hf]; exact List.mem_cons_self)
    obtain ⟨e, hindex, hnone⟩ := hempty
    have hne : index ≠ handle.index.toNat := by
      rintro rfl
      rw [he] at hindex
      cases hindex
      cases hnone
    simp only [Array.getElem?_modify, if_neg hne]
    exact he
  · obtain ⟨hs, _⟩ := Array.getElem?_eq_some_iff.mp he
    simp only [Array.getElem?_push, if_neg (Nat.ne_of_lt hs)]
    exact he

end Heap

/-! ## Changes in kind -/

/-- The second slot holds what the first one does, up to the values that a program may store. -/
inductive Slot.Keeps : Slot → Slot → Prop
  | value (v w : Value) : Slot.Keeps (.value v) (.value w)
  | text (s : String) : Slot.Keeps (.text s) (.text s)
  | array {a b : Elements} (hk : b.kind = a.kind) (hs : b.size = a.size) :
      Slot.Keeps (.array a) (.array b)
  | list (a b : Array Value) : Slot.Keeps (.list a) (.list b)

/-- The second object is of the type of the first one and holds the same slot by slot, up to the
values that a program may store. -/
structure Object.Keeps (a b : Object) : Prop where
  type : b.type = a.type
  slots : List.Forall₂ Slot.Keeps a.slots b.slots

/-- A slot keeps its own form. -/
@[refl] theorem Slot.Keeps.refl (slot : Slot) : slot.Keeps slot := by
  cases slot with
  | value v => exact .value v v
  | text s => exact .text s
  | array elements => exact .array rfl rfl
  | list items => exact .list items items

/-- A form that is kept twice is kept. -/
theorem Slot.Keeps.trans {a b c : Slot} (hab : a.Keeps b) (hbc : b.Keeps c) : a.Keeps c := by
  cases hab with
  | value v w =>
    cases hbc
    exact .value v _
  | text s => exact hbc
  | array hk hs =>
    cases hbc with
    | array hk' hs' => exact .array (hk'.trans hk) (hs'.trans hs)
  | list items _ =>
    cases hbc
    exact .list items _

namespace Object

/-- An object keeps its own form. -/
@[refl] theorem Keeps.refl (object : Object) : object.Keeps object :=
  ⟨rfl, List.forall₂_same.mpr fun slot _ => .refl slot⟩

/-- An object whose form is kept twice keeps it. -/
theorem Keeps.trans {a b c : Object} (hab : a.Keeps b) (hbc : b.Keeps c) : a.Keeps c := by
  refine ⟨hbc.type.trans hab.type, ?_⟩
  have hslots := hab.slots
  have hslots' := hbc.slots
  generalize a.slots = x, b.slots = y, c.slots = z at hslots hslots'
  induction hslots generalizing z with
  | nil =>
    cases hslots'
    exact .nil
  | cons hxy _ ih =>
    cases hslots' with
    | cons hyz hrest => exact .cons (hxy.trans hyz) (ih _ hrest)

/-- An object of the same form has as many slots. -/
theorem Keeps.length_slots {a b : Object} (h : a.Keeps b) : b.slots.length = a.slots.length :=
  h.slots.length_eq.symm

/-- The first slots of objects of the same form have the same form. -/
theorem Keeps.slot_zero {a b : Object} (h : a.Keeps b) :
    Option.Rel Slot.Keeps (a.slot? 0) (b.slot? 0) := by
  have hslots := h.slots
  unfold Object.slot?
  generalize a.slots = x, b.slots = y at hslots
  cases hslots with
  | nil => exact .none
  | cons hs _ => exact .some hs

/-- A text cannot be changed. -/
theorem Keeps.text? {a b : Object} (h : a.Keeps b) : b.text? = a.text? := by
  have hs := h.slot_zero
  unfold Object.text?
  generalize a.slot? 0 = x, b.slot? 0 = y at hs
  cases hs with
  | none => rfl
  | some hs => cases hs <;> rfl

/-- An array stays one of its element kind and length. -/
theorem Keeps.elements? {a b : Object} (h : a.Keeps b) {elements : Elements}
    (he : a.elements? = some elements) :
    ∃ elements', b.elements? = some elements' ∧ elements'.kind = elements.kind ∧
      elements'.size = elements.size := by
  have hs := h.slot_zero
  unfold Object.elements? at he ⊢
  generalize a.slot? 0 = x, b.slot? 0 = y at hs he
  cases hs with
  | none => cases he
  | some hs =>
    cases hs with
    | array hk hsize =>
      cases he
      exact ⟨_, rfl, hk, hsize⟩
    | value => cases he
    | text => cases he
    | list => cases he

/-- A slot may be replaced by one of its kind. -/
theorem keeps_setSlot {object : Object} {i : Nat} {old slot : Slot}
    (hold : object.slot? i = some old) (h : old.Keeps slot) :
    object.Keeps (object.setSlot i slot) := by
  refine ⟨rfl, ?_⟩
  simp only [Object.slot?, Object.setSlot] at hold ⊢
  generalize object.slots = slots at hold
  induction slots generalizing i with
  | nil => cases hold
  | cons head rest ih =>
    cases i with
    | zero =>
      cases hold
      exact .cons h (List.forall₂_same.mpr fun slot _ => .refl slot)
    | succ i => exact .cons (.refl head) (ih hold)

/-- A slot may be changed by a function that keeps every slot in kind. -/
theorem keeps_modifySlot (object : Object) (i : Nat) {f : Slot → Slot}
    (h : ∀ slot : Slot, slot.Keeps (f slot)) : object.Keeps (object.modifySlot i f) := by
  refine ⟨rfl, ?_⟩
  simp only [Object.modifySlot]
  generalize object.slots = slots
  induction slots generalizing i with
  | nil => simp
  | cons head rest ih =>
    cases i with
    | zero => exact .cons (h head) (List.forall₂_same.mpr fun slot _ => .refl slot)
    | succ i => exact .cons (.refl head) (ih i)

end Object

end ManagedCode
