import ManagedCode.Machine.Query
import ManagedCode.Proofs.Heap.Collecting

/-!
# References of a machine

A machine has no dangling reference when every reference in a frame, a static field or a live object
names a live object. On such a machine the questions that code asks about the values it holds never
fail because a handle is stale, and the values in an answer are again good ones.
-/

namespace ManagedCode

/-- The fault that a handle names no live object. -/
def Fault.IsMissing (fault : Fault) : Prop := ∃ handle, fault = .heap (.notFound handle)

/-- The handle that a fault names. -/
def Fault.handle? : Fault → Option Handle
  | .heap (.notFound handle) => some handle
  | .heap (.slotKind handle _ _) => some handle
  | _ => none

/-- A fault that names no handle is not about a stale one. -/
theorem Fault.not_isMissing_of_handle? {fault : Fault} (h : fault.handle? = none) :
    ¬ fault.IsMissing := by
  rintro ⟨handle, rfl⟩
  cases h

/-- Every reference among `values` is one of those `held`. -/
def Backed (held values : List Value) : Prop :=
  ∀ handle, Value.ref handle ∈ values → Value.ref handle ∈ held

/-- Values that are held are backed. -/
theorem Backed.of_subset {held values : List Value} (h : values ⊆ held) : Backed held values :=
  fun _ hm => h hm

/-- What is backed by backed values is backed. -/
theorem Backed.trans {held values more : List Value} (h : Backed held values)
    (hm : Backed values more) : Backed held more :=
  fun handle hv => h handle (hm handle hv)

/-- A value that is no reference needs no support. -/
theorem Backed.of_number {held : List Value} {v : Value} (h : v.handle? = none) :
    Backed held [v] := by
  intro handle hm
  rw [List.mem_singleton] at hm
  subst hm
  cases h

/-- The handles of values are those of the references among them. -/
theorem mem_handles_iff {values : List Value} {handle : Handle} :
    handle ∈ values.filterMap Value.handle? ↔ Value.ref handle ∈ values := by
  rw [List.mem_filterMap]
  constructor
  · rintro ⟨value, hm, hv⟩
    cases value <;> simp_all [Value.handle?]
  · intro hm
    exact ⟨_, hm, rfl⟩

/-- The values in a slot, as far as they may be references. -/
def Slot.values : Slot → List Value
  | .value v => [v]
  | .text _ => []
  | .array elements => elements.values.toList
  | .list items => items.toList

/-- A slot refers to what its values refer to. -/
theorem Slot.mem_references_iff {slot : Slot} {handle : Handle} :
    handle ∈ slot.references ↔ Value.ref handle ∈ slot.values := by
  cases slot with
  | value v => cases v <;> simp [Slot.references, Slot.values, Value.handle?, eq_comm]
  | text s => simp [Slot.references, Slot.values]
  | array elements => exact mem_handles_iff
  | list items => exact mem_handles_iff

/-- An object refers to what its slots refer to. -/
theorem Object.mem_references_iff {object : Object} {handle : Handle} :
    handle ∈ object.references ↔ ∃ slot ∈ object.slots, Value.ref handle ∈ slot.values := by
  simp only [Object.references, List.mem_flatMap, Slot.mem_references_iff]

/-- What a value of a slot refers to, the object refers to. -/
theorem Object.mem_references_of_slot {object : Object} {i : Nat} {slot : Slot} {handle : Handle}
    (hs : object.slot? i = some slot) (hv : Value.ref handle ∈ slot.values) :
    handle ∈ object.references :=
  Object.mem_references_iff.mpr ⟨slot, List.mem_of_getElem? hs, hv⟩

/-- A slot that is replaced brings in only what it holds. -/
theorem Object.mem_references_setSlot {object : Object} {i : Nat} {slot : Slot} {handle : Handle}
    (h : handle ∈ (object.setSlot i slot).references) :
    handle ∈ object.references ∨ Value.ref handle ∈ slot.values := by
  obtain ⟨found, hm, hv⟩ := Object.mem_references_iff.mp h
  rcases List.mem_or_eq_of_mem_set hm with hm | rfl
  · exact Or.inl (Object.mem_references_iff.mpr ⟨found, hm, hv⟩)
  · exact Or.inr hv

/-- A slot that is changed brings in only what the change does. -/
theorem Object.mem_references_modifySlot {object : Object} {i : Nat} {f : Slot → Slot}
    {handle : Handle} {more : List Value}
    (hf : ∀ slot, Value.ref handle ∈ (f slot).values →
      Value.ref handle ∈ slot.values ∨ Value.ref handle ∈ more)
    (h : handle ∈ (object.modifySlot i f).references) :
    handle ∈ object.references ∨ Value.ref handle ∈ more := by
  obtain ⟨found, hm, hv⟩ := Object.mem_references_iff.mp h
  obtain ⟨j, hj⟩ := List.mem_iff_getElem?.mp hm
  rw [Object.modifySlot, List.getElem?_modify] at hj
  obtain ⟨slot, hslot, rfl⟩ := Option.map_eq_some_iff.mp hj
  have hold : Value.ref handle ∈ slot.values → handle ∈ object.references :=
    Object.mem_references_of_slot hslot
  split at hv
  · exact (hf slot hv).imp_left hold
  · exact Or.inl (hold hv)

namespace Machine

/-- Every reference among the values names a live object. -/
def Holds (m : Machine) (values : List Value) : Prop :=
  ∀ handle, Value.ref handle ∈ values → m.heap.Live handle

/-- Every reference in a frame, a static field or a live object names a live object. -/
structure NoDangling (m : Machine) : Prop where
  /-- On the evaluation stacks and among the locals and arguments. -/
  frames : ∀ frame ∈ m.calls.frames, m.Holds frame.values
  /-- In the static fields. -/
  statics : m.Holds m.statics.values
  /-- In the slots, array elements and list items of live objects. -/
  objects : ∀ handle object, m.heap.get? handle = some object →
    ∀ r ∈ object.references, m.heap.Live r

/-- No handle that was live has become stale. -/
def Grows (m m' : Machine) : Prop := ∀ handle, m.heap.Live handle → m'.heap.Live handle

/-- A machine has all objects of its own. -/
theorem Grows.refl (m : Machine) : m.Grows m := fun _ h => h

/-- Objects that stay in two stages stay. -/
theorem Grows.trans {a b c : Machine} (hab : a.Grows b) (hbc : b.Grows c) : a.Grows c :=
  fun handle h => hbc handle (hab handle h)

/-- Values that are good stay so as long as no object goes. -/
theorem Holds.grow {m m' : Machine} {values : List Value} (h : m.Holds values) (hg : m.Grows m') :
    m'.Holds values :=
  fun handle hv => hg handle (h handle hv)

/-- What is backed by good values is good. -/
theorem Holds.backed {m : Machine} {held values : List Value} (h : m.Holds held)
    (hb : Backed held values) : m.Holds values :=
  fun handle hv => h handle (hb handle hv)

/-- The values of two lists are good exactly if those of each are. -/
theorem holds_append {m : Machine} {a b : List Value} :
    m.Holds (a ++ b) ↔ m.Holds a ∧ m.Holds b := by
  simp only [Holds, List.mem_append, or_imp, forall_and]

/-- A list is good exactly if its first value and the others are. -/
theorem holds_cons {m : Machine} {v : Value} {values : List Value} :
    m.Holds (v :: values) ↔ m.Holds [v] ∧ m.Holds values :=
  holds_append (a := [v])

/-- No values are good values. -/
theorem holds_nil (m : Machine) : m.Holds [] := fun _ h => absurd h List.not_mem_nil

/-- A reference is good exactly if its object is live. -/
theorem holds_ref {m : Machine} {handle : Handle} :
    m.Holds [.ref handle] ↔ m.heap.Live handle := by
  simp [Holds]

/-- The running frame of a machine without dangling references holds good values. -/
theorem NoDangling.top {m : Machine} (hn : m.NoDangling) {frame : Frame}
    (ht : m.calls.top? = some frame) : m.Holds frame.values :=
  hn.frames frame (List.mem_of_head? ht)

/-! ## Questions -/

/-- An answer from good values: a result whose values are good, or a fault other than that a handle
is stale. -/
def GoodAnswer {α : Type} (m : Machine) (given : α → List Value) : Except Fault α → Prop
  | .ok a => m.Holds (given a)
  | .error fault => ¬ fault.IsMissing

/-- The object that a live handle names is found. -/
theorem object_of_live {m : Machine} {handle : Handle} (h : m.heap.Live handle) :
    ∃ object, m.object handle = .ok object ∧ m.heap.get? handle = some object := by
  obtain ⟨object, ho⟩ := Heap.live_iff.mp h
  refine ⟨object, ?_, ho⟩
  simp only [Machine.object, Heap.get, ho]
  rfl

end Machine

end ManagedCode
