import ManagedCode.Proofs.Execution.Changes
import ManagedCode.Proofs.Execution.Footprints

/-!
# What an instruction does

An instruction that goes on with the next one replaces its operands on the evaluation stack by its
results and touches nothing but its footprint. If it faults, it has at most taken operands: whatever
can fail is done before the one change that is made at the end.
-/

namespace ManagedCode

/-! ## Effects -/

/-- The heap with another object in one entry. -/
def Heap.withObject (heap : Heap) (index : Nat) (generation : UInt32) (object : Object) : Heap :=
  { heap with entries := heap.entries.setIfInBounds index ⟨generation, some object⟩ }

/-- What is done to a heap: nothing, or a change of one entry. -/
inductive Heap.Used : HeapUse → Heap → Heap → Prop
  | nothing {heap : Heap} : Used .nothing heap heap
  /-- An entry that held no object gets one. -/
  | object {heap heap' : Heap} {index : Nat} {generation : UInt32} {object : Object}
      (room : heap.live < heap.capacity)
      (vacant : ∀ e, heap.entries[index]? = some e → e.object = none)
      (entry : heap'.entries[index]? = some ⟨generation, some object⟩)
      (others : ∀ i, i ≠ index → heap'.entries[i]? = heap.entries[i]?)
      (live : heap'.live = heap.live + 1) (capacity : heap'.capacity = heap.capacity) :
      Used .object heap heap'
  /-- A slot that holds the value of a field gets another value. -/
  | field {heap : Heap} {index slot : Nat} {generation : UInt32} {object : Object}
      {old value : Value}
      (entry : heap.entries[index]? = some ⟨generation, some object⟩)
      (held : object.slots[slot]? = some (.value old)) :
      Used .field heap (heap.withObject index generation
        { object with slots := object.slots.set slot (.value value) })
  /-- An array gets another value for one of its elements. -/
  | element {heap : Heap} {index position : Nat} {generation : UInt32} {object : Object}
      {elements : Elements} {value : Value}
      (entry : heap.entries[index]? = some ⟨generation, some object⟩)
      (held : object.slots[0]? = some (.array elements))
      (inside : position < elements.values.size) :
      Used .element heap (heap.withObject index generation
        { object with
          slots := object.slots.set 0 (.array { elements with
            values := elements.values.setIfInBounds position value }) })

/-- The static field is the one that is stored. -/
def Footprint.Stores (footprint : Footprint) (catalog : Catalog) (type : TypeId) (name : String) :
    Prop :=
  ∃ field, footprint.storedStatic? = some field ∧
    catalog.resolveType field.declaringType = .ok type ∧ field.name = name

/-- The machine `m'` is `m` after a footprint was left on it: its running frame is `after` and was
`frame`. -/
structure Footprint.Leaves (footprint : Footprint) (m : Machine) (frame : Frame)
    (callers : List Frame) (after : Frame) (m' : Machine) : Prop where
  /-- Nothing else than the running frame, the heap and the static fields is touched. -/
  elsewhere : m' = { m with
    calls := { m.calls with frames := after :: callers }
    heap := m'.heap
    statics := m'.statics }
  /-- The same method runs. -/
  method : after.caller = frame.caller ∧ after.method = frame.method
  /-- There were enough operands. -/
  operands : footprint.operands ≤ frame.stack.length
  /-- The results stand in place of the operands. -/
  stack : ∃ results, results.length = footprint.results ∧
    after.stack = results ++ frame.stack.drop footprint.operands
  /-- Only the local that is stored may change. -/
  locals : after.locals.size = frame.locals.size ∧
    ∀ i, footprint.storedLocal? ≠ some i → after.locals[i]? = frame.locals[i]?
  /-- Only the argument that is stored may change. -/
  arguments : after.arguments.length = frame.arguments.length ∧
    ∀ i, footprint.storedArgument? ≠ some i → after.arguments[i]? = frame.arguments[i]?
  /-- Only the static field that is stored may change. -/
  statics : ∀ type name, ¬ footprint.Stores m.catalog type name →
    m'.statics.get? type name = m.statics.get? type name
  heap : Heap.Used footprint.heap m.heap m'.heap

/-! ## Changes of a heap -/

namespace Heap

/-- Storing an object fills an entry that held none. -/
theorem used_add {heap : Heap} (hw : heap.WellFormed) (hr : heap.isFull = false) (object : Object) :
    Used .object heap (heap.add object).2 := by
  have hroom := WellFormed.live_lt_of_room hr
  -- A new object takes the first free entry, or a new one behind the others.
  cases hf : heap.free with
  | nil =>
    have hadd : (heap.add object).2 =
        { heap with entries := heap.entries.push ⟨0, some object⟩, live := heap.live + 1 } := by
      simp only [add, hf]
    have hvacant : ∀ e, heap.entries[heap.entries.size]? = some e → e.object = none := by
      intro e he
      rw [Array.getElem?_eq_none (Nat.le_refl _)] at he
      cases he
    have hothers : ∀ i, i ≠ heap.entries.size →
        (heap.entries.push ⟨0, some object⟩)[i]? = heap.entries[i]? := by
      intro i hi
      rw [Array.getElem?_push, if_neg hi]
    rw [hadd]
    exact .object hroom hvacant Array.getElem?_push_size hothers rfl rfl
  | cons index free =>
    obtain ⟨hlt, hnone⟩ := hw.entry_of_mem_free (hf ▸ List.mem_cons_self : index ∈ heap.free)
    have hget := Array.getElem?_eq_getElem hlt
    have hadd : (heap.add object).2 =
        { heap with
          entries := heap.entries.modify index fun e => { e with object := some object }
          free
          live := heap.live + 1 } := by
      simp only [add, hf]
    have hvacant : ∀ e, heap.entries[index]? = some e → e.object = none := by
      intro e he
      rw [hget] at he
      cases he
      exact hnone
    have hentry : (heap.entries.modify index fun e => { e with object := some object })[index]? =
        some ⟨heap.entries[index].generation, some object⟩ := by
      rw [Array.getElem?_modify, if_pos rfl, hget]
      rfl
    have hothers : ∀ i, i ≠ index →
        (heap.entries.modify index fun e => { e with object := some object })[i]? =
          heap.entries[i]? := by
      intro i hi
      rw [Array.getElem?_modify, if_neg (Ne.symm hi)]
    rw [hadd]
    exact .object hroom hvacant hentry hothers rfl rfl

/-- Changing an object writes its entry. -/
theorem modify_eq_withObject {heap : Heap} {handle : Handle} {object : Object}
    (hg : heap.get? handle = some object) (f : Object → Object) :
    heap.modify handle f =
      heap.withObject handle.index.toNat handle.generation (f object) := by
  rw [get?_eq_some_iff] at hg
  have hlt := (Array.getElem?_eq_some_iff.mp hg).1
  unfold modify withObject
  congr 1
  refine Array.ext_getElem? fun i => ?_
  rw [Array.getElem?_modify, Array.getElem?_setIfInBounds]
  by_cases hi : handle.index.toNat = i
  · subst hi
    rw [if_pos rfl, if_pos rfl, if_pos hlt, hg]
    simp
  · rw [if_neg hi, if_neg hi]

end Heap

/-- What is to be stored has its place among the elements. -/
theorem Elements.position_lt_of_plan {elements : Elements} {index : Int} {value stored : Value}
    {position : Nat} (h : elements.plan index value = .ok (position, stored)) :
    position < elements.values.size := by
  obtain ⟨found, hfound, h⟩ := bind_eq_ok_iff.mp h
  have hposition : found = position := by
    split at h
    · cases h
      rfl
    · cases h
  rw [← hposition]
  unfold Elements.position at hfound
  split at hfound
  · rename_i hin
    cases hfound
    have hhigh : index < elements.values.size := hin.2
    omega
  · cases hfound

/-- Storing a static field keeps the others. -/
theorem Statics.get?_set_of_ne {statics : Statics} {type other : TypeId} {name otherName : String}
    {value : Value} (h : (other, otherName) ≠ (type, name)) :
    (statics.set type name value).get? other otherName = statics.get? other otherName := by
  simp only [get?, set, List.lookup_cons, beq_false_of_ne h]
  induction statics.entries with
  | nil => rfl
  | cons entry entries ih =>
    by_cases hentry : entry.1 = (type, name)
    · have hne : ((other, otherName) == entry.1) = false := by
        rw [hentry]
        exact beq_false_of_ne h
      rw [List.filter_cons_of_neg (by simp [hentry]), List.lookup_cons, hne]
      exact ih
    · rw [List.filter_cons_of_pos (by simp [hentry]), List.lookup_cons, List.lookup_cons, ih]

namespace Machine

/-- An array has its elements in its first slot. -/
theorem slot_of_arrayOf {m : Machine} {handle : Handle} {elements : Elements}
    (h : m.arrayOf handle = .ok elements) :
    ∃ object, m.heap.get? handle = some object ∧ object.slots[0]? = some (.array elements) := by
  obtain ⟨object, ho, helements⟩ := bind_eq_ok_iff.mp h
  refine ⟨object, get?_of_object ho, ?_⟩
  unfold Object.elements? at helements
  split at helements
  · rename_i found hfound
    split at hfound
    · rename_i hs
      cases hfound
      cases helements
      exact hs
    · cases hfound
  · cases helements

/-- Replacing the value of a field writes the slot that was found for it. -/
theorem used_setSlot {m : Machine} {handle : Handle} {name : String} {slot : Nat} {old : Value}
    (h : m.fieldOf handle name = .ok (slot, old)) (value : Value) :
    Heap.Used .field m.heap (m.heap.modify handle (·.setSlot slot (.value value))) := by
  obtain ⟨object, hg, hslot⟩ := slot_of_fieldOf h
  rw [Heap.modify_eq_withObject hg]
  exact .field (Heap.get?_eq_some_iff.mp hg) hslot

/-- Replacing an element writes the array that was found for it. -/
theorem used_put {m : Machine} {handle : Handle} {elements : Elements} {index : Int}
    {value stored : Value} {position : Nat} (h : m.arrayOf handle = .ok elements)
    (hp : elements.plan index value = .ok (position, stored)) :
    Heap.Used .element m.heap (m.heap.modify handle (·.modifySlot 0 fun
      | .array elements => .array (elements.put position stored)
      | slot => slot)) := by
  obtain ⟨object, hg, hslot⟩ := slot_of_arrayOf h
  rw [Heap.modify_eq_withObject hg]
  have hmodify : object.slots.modify 0 (fun
      | .array elements => .array (elements.put position stored)
      | slot => slot) = object.slots.set 0 (.array (elements.put position stored)) := by
    cases hslots : object.slots with
    | nil =>
      rw [hslots] at hslot
      cases hslot
    | cons first rest =>
      rw [hslots] at hslot
      cases hslot
      rfl
  rw [Object.modifySlot, hmodify]
  exact .element (Heap.get?_eq_some_iff.mp hg) hslot (Elements.position_lt_of_plan hp)

end Machine

/-! ## Taking operands -/

/-- The machine after `taken` values were taken from the evaluation stack of the running frame. -/
def Machine.dropped (m : Machine) (frame : Frame) (callers : List Frame) (taken : Nat) : Machine :=
  { m with calls := { m.calls with
      frames := { frame with stack := frame.stack.drop taken } :: callers } }

namespace Exec

section

variable {m : Machine} {frame : Frame} {callers : List Frame} {limit taken : Nat}
  {α β : Type}

/-- The outcome is as `post` says, or a fault before which at most `limit` values were taken. -/
def Confined (m : Machine) (frame : Frame) (callers : List Frame) (limit : Nat)
    (post : α → Machine → Prop) : Outcome α → Prop
  | .ok a m' => post a m'
  | .error _ m' => ∃ taken, taken ≤ limit ∧ m' = m.dropped frame callers taken

/-- Parts in sequence are confined if each is, given what the one before left. -/
theorem Confined.bind {post : β → Machine → Prop} {between : α → Machine → Prop} {x : Exec α}
    {next : α → Exec β} {start : Machine}
    (hx : Confined m frame callers limit between (x start))
    (hn : ∀ a m', between a m' → Confined m frame callers limit post (next a m')) :
    Confined m frame callers limit post ((x >>= next) start) := by
  cases h : x start with
  | ok a m' =>
    rw [h] at hx
    rw [bind_of_ok next h]
    exact hn a m' hx
  | error fault m' =>
    rw [h] at hx
    rw [bind_of_error next h]
    exact hx

/-- What a confined computation leaves may be said less precisely. -/
theorem Confined.imp {post post' : α → Machine → Prop} {outcome : Outcome α}
    (h : Confined m frame callers limit post outcome) (hi : ∀ a m', post a m' → post' a m') :
    Confined m frame callers limit post' outcome := by
  cases outcome with
  | ok a m' => exact hi a m' h
  | error fault m' => exact h

/-- The machine has `taken` values fewer on the evaluation stack, which were there. -/
structure Taken (m : Machine) (frame : Frame) (callers : List Frame) (taken : Nat) (m' : Machine) :
    Prop where
  enough : taken ≤ frame.stack.length
  machine : m' = m.dropped frame callers taken

/-- At the start no operand has been taken. -/
theorem taken_zero (hf : m.calls.frames = frame :: callers) : Taken m frame callers 0 m := by
  refine ⟨Nat.zero_le _, ?_⟩
  rw [Machine.dropped, List.drop_zero, ← hf]

variable {start : Machine}

/-- A pop takes one operand more. -/
theorem confined_pop (hs : Taken m frame callers taken start) (hl : taken ≤ limit) :
    Confined m frame callers limit (fun _ => Taken m frame callers (taken + 1)) (pop start) := by
  obtain ⟨-, rfl⟩ := hs
  cases hstack : frame.stack.drop taken with
  | nil =>
    have hpop : pop (m.dropped frame callers taken) =
        .error (.stackUnderflow (m.dropped frame callers taken).runningMethod)
          (m.dropped frame callers taken) := by
      simp only [pop, Machine.dropped, CallStack.top?, List.head?_cons, Option.bind_some,
        Frame.pop?, hstack]
    rw [hpop]
    exact ⟨taken, hl, rfl⟩
  | cons value rest =>
    have hlt : taken < frame.stack.length := by
      rw [← Nat.sub_pos_iff_lt, ← List.length_drop, hstack]
      exact Nat.succ_pos _
    have hrest : frame.stack.drop (taken + 1) = rest := by
      rw [← List.drop_drop, hstack]
      rfl
    have hpop : pop (m.dropped frame callers taken) =
        .ok value (m.dropped frame callers (taken + 1)) := by
      simp only [pop, Machine.dropped, CallStack.top?, List.head?_cons, Option.bind_some,
        Frame.pop?, hstack, CallStack.modifyTop, hrest]
    rw [hpop]
    exact ⟨hlt, rfl⟩

/-- A question takes no operand, and its answer is that of the machine. -/
theorem confined_query (hs : Taken m frame callers taken start) (hl : taken ≤ limit)
    (f : Machine → Except Fault α) :
    Confined m frame callers limit
      (fun a m' => Taken m frame callers taken m' ∧ f start = .ok a) (query f start) := by
  rw [query_apply]
  cases f start with
  | ok a => exact ⟨hs, rfl⟩
  | error fault => exact ⟨taken, hl, hs.machine⟩

/-- Two operands are taken one after the other. -/
theorem confined_popTwo (hs : Taken m frame callers taken start) (hl : taken + 2 ≤ limit) :
    Confined m frame callers limit (fun _ => Taken m frame callers (taken + 2)) (popTwo start) :=
  (confined_pop hs (by omega)).bind fun _ _ hs => (confined_pop hs (by omega)).bind fun _ _ hs => hs

/-- A reference is one operand, also if it turns out to be none. -/
theorem confined_popHandle (hs : Taken m frame callers taken start) (hl : taken + 1 ≤ limit) :
    Confined m frame callers limit (fun _ => Taken m frame callers (taken + 1))
      (popHandle start) := by
  refine (confined_pop hs (by omega)).bind fun value m' hs => ?_
  exact (confined_query hs hl _).imp fun _ _ hs => hs.1

/-- An index is one operand, also if it turns out to be none. -/
theorem confined_popIndex (hs : Taken m frame callers taken start) (hl : taken + 1 ≤ limit) :
    Confined m frame callers limit (fun _ => Taken m frame callers (taken + 1))
      (popIndex start) :=
  (confined_pop hs (by omega)).bind fun _ _ hs => (confined_query hs hl _).bind fun _ _ hs => hs.1

/-! ## The change at the end -/

/-- Results are put in place of the operands, after something was done to the heap. -/
theorem leaves_results {use : HeapUse} {heap : Heap} (h : taken ≤ frame.stack.length)
    (hu : Heap.Used use m.heap heap) (results : List Value) :
    Footprint.Leaves { operands := taken, results := results.length, heap := use } m frame callers
      { frame with stack := results ++ frame.stack.drop taken }
      { m with
        calls := { m.calls with
          frames := { frame with stack := results ++ frame.stack.drop taken } :: callers }
        heap } where
  elsewhere := rfl
  method := ⟨rfl, rfl⟩
  operands := h
  stack := ⟨results, rfl, rfl⟩
  locals := ⟨rfl, fun _ _ => rfl⟩
  arguments := ⟨rfl, fun _ _ => rfl⟩
  statics _ _ _ := rfl
  heap := hu

/-- The outcome is that a footprint was left, or a fault before which at most `limit` values were
taken. -/
abbrev Finishes (m : Machine) (frame : Frame) (callers : List Frame) (limit : Nat)
    (footprint : Footprint) : Outcome Unit → Prop :=
  Confined m frame callers limit fun _ m' => ∃ after, footprint.Leaves m frame callers after m'

/-- An instruction may end with what it has taken and push nothing. -/
theorem finishes_pure (hs : Taken m frame callers taken start) :
    Finishes m frame callers limit { operands := taken, results := 0 }
      ((pure () : Exec Unit) start) := by
  obtain ⟨h, rfl⟩ := hs
  exact ⟨_, leaves_results h .nothing []⟩

/-- An instruction may end by pushing one result. -/
theorem finishes_push (hs : Taken m frame callers taken start) (value : Value) :
    Finishes m frame callers limit { operands := taken, results := 1 } (push value start) := by
  obtain ⟨h, rfl⟩ := hs
  exact ⟨_, leaves_results h .nothing [value]⟩

/-- The answer to a question is pushed. -/
theorem finishes_answer (hs : Taken m frame callers taken start) (hl : taken ≤ limit)
    (f : Machine → Except Fault α) (result : α → Value) :
    Finishes m frame callers limit { operands := taken, results := 1 }
      ((query f >>= fun a => push (result a)) start) :=
  (confined_query hs hl f).bind fun a _ hs => finishes_push hs.1 (result a)

/-- After `taken` values were taken an object was stored. -/
def Stored (m : Machine) (frame : Frame) (callers : List Frame) (taken : Nat) (m' : Machine) :
    Prop :=
  taken ≤ frame.stack.length ∧
    ∃ heap, Heap.Used .object m.heap heap ∧ m' = { m.dropped frame callers taken with heap }

/-- A stored object is the only new one, and the others are as before. -/
theorem confined_store (hw : m.heap.WellFormed) (hs : Taken m frame callers taken start)
    (hl : taken ≤ limit) (object : Object) :
    Confined m frame callers limit (fun _ => Stored m frame callers taken) (store object start) := by
  obtain ⟨h, rfl⟩ := hs
  unfold store
  cases hr : (m.dropped frame callers taken).heap.isFull with
  | true => exact ⟨taken, hl, rfl⟩
  | false => exact ⟨h, _, Heap.used_add hw hr object, rfl⟩

/-- A string is stored as one object. -/
theorem confined_allocString (hw : m.heap.WellFormed) (hs : Taken m frame callers taken start)
    (hl : taken ≤ limit) (text : String) :
    Confined m frame callers limit (fun _ => Stored m frame callers taken)
      (allocString text start) :=
  (confined_query hs hl _).bind fun _ _ hs =>
    (confined_store hw hs.1 hl _).bind fun _ _ hs => hs

/-- An array is stored as one object once its length was allowed. -/
theorem confined_allocArray (hw : m.heap.WellFormed) (hs : Taken m frame callers taken start)
    (hl : taken ≤ limit) (elements : Elements) :
    Confined m frame callers limit (fun _ => Stored m frame callers taken)
      (allocArray elements start) :=
  (confined_query hs hl _).bind fun _ _ hs => (confined_query hs.1 hl _).bind fun _ _ hs =>
    (confined_store hw hs.1 hl _).bind fun _ _ hs => hs

/-- Storing a field touches one slot of one object. -/
theorem finishes_setField (hs : Taken m frame callers taken start) (hl : taken ≤ limit)
    (handle : Handle) (name : String) (value : Value) :
    Finishes m frame callers limit { operands := taken, results := 0, heap := .field }
      (setField handle name value start) := by
  refine (confined_query hs hl _).bind fun ⟨slot, old⟩ m' hfound => ?_
  obtain ⟨⟨h, rfl⟩, hfield⟩ := hfound
  obtain ⟨-, rfl⟩ := hs
  have hu : Heap.Used .field m.heap (m.heap.modify handle (·.setSlot slot (.value value))) :=
    Machine.used_setSlot hfield value
  exact ⟨_, leaves_results h hu []⟩

/-- Storing an element touches one place of one array. -/
theorem finishes_setElement (hs : Taken m frame callers taken start) (hl : taken ≤ limit)
    (handle : Handle) (index : Int) (value : Value) :
    Finishes m frame callers limit { operands := taken, results := 0, heap := .element }
      (setElement handle index value start) := by
  refine (confined_query hs hl _).bind fun ⟨position, stored⟩ m' hfound => ?_
  obtain ⟨⟨h, rfl⟩, hplan⟩ := hfound
  obtain ⟨-, rfl⟩ := hs
  obtain ⟨elements, harray, hplan⟩ := bind_eq_ok_iff.mp hplan
  have hu : Heap.Used .element m.heap (m.heap.modify handle (·.modifySlot 0 fun
      | .array elements => .array (elements.put position stored)
      | slot => slot)) := Machine.used_put harray hplan
  exact ⟨_, leaves_results h hu []⟩

/-- Storing an argument touches that argument only. -/
theorem finishes_storeArgument (hs : Taken m frame callers 1 start) (hl : 1 ≤ limit) (index : Nat)
    (value : Value) :
    Finishes m frame callers limit (Task.storeArgument index).footprint
      (storeArgument index value start) := by
  -- The slot is read first, which fails if there is none.
  refine (confined_query hs hl _).bind fun old m' hfound => ?_
  obtain ⟨⟨h, rfl⟩, -⟩ := hfound
  refine ⟨{ frame with
    stack := frame.stack.drop 1, arguments := frame.arguments.set index value }, ?_⟩
  exact {
    elsewhere := rfl
    method := ⟨rfl, rfl⟩
    operands := h
    stack := ⟨[], rfl, rfl⟩
    locals := ⟨rfl, fun _ _ => rfl⟩
    arguments := ⟨List.length_set, fun i hi => List.getElem?_set_ne (fun h => hi (congrArg some h))⟩
    statics := fun _ _ _ => rfl
    heap := .nothing }

/-- Storing a variable touches that variable only. -/
theorem finishes_storeLocal (hs : Taken m frame callers 1 start) (hl : 1 ≤ limit) (index : Nat)
    (value : Value) :
    Finishes m frame callers limit (Task.storeLocal index).footprint
      (storeLocal index value start) := by
  refine (confined_query hs hl _).bind fun found m' hfound => ?_
  obtain ⟨⟨h, rfl⟩, -⟩ := hfound
  refine ⟨{ frame with
    stack := frame.stack.drop 1, locals := frame.locals.setIfInBounds index value }, ?_⟩
  exact {
    elsewhere := rfl
    method := ⟨rfl, rfl⟩
    operands := h
    stack := ⟨[], rfl, rfl⟩
    locals := ⟨Array.size_setIfInBounds,
      fun i hi => Array.getElem?_setIfInBounds_ne (fun h => hi (congrArg some h))⟩
    arguments := ⟨rfl, fun _ _ => rfl⟩
    statics := fun _ _ _ => rfl
    heap := .nothing }

/-- Storing a static field touches that field only. -/
theorem finishes_setStatic (hs : Taken m frame callers 1 start) {field : FieldRef} {type : TypeId}
    (ht : m.catalog.resolveType field.declaringType = .ok type) (value : Value) :
    Finishes m frame callers limit (Task.storeStatic field).footprint
      (setStatic type field.name value start) := by
  obtain ⟨h, rfl⟩ := hs
  refine ⟨{ frame with stack := frame.stack.drop 1 }, ?_⟩
  exact {
    elsewhere := rfl
    method := ⟨rfl, rfl⟩
    operands := h
    stack := ⟨[], rfl, rfl⟩
    locals := ⟨rfl, fun _ _ => rfl⟩
    arguments := ⟨rfl, fun _ _ => rfl⟩
    statics := fun other name hother => by
      refine Statics.get?_set_of_ne fun hsame => hother ?_
      obtain ⟨rfl, rfl⟩ := Prod.mk.inj hsame
      exact ⟨field, rfl, ht, rfl⟩
    heap := .nothing }

end

/-! ## Tasks -/

variable {m : Machine} {frame : Frame} {callers : List Frame}

/-- A task leaves its footprint. It fails before its last change, so that it has taken operands at
most. -/
theorem finishes_perform (hf : m.calls.frames = frame :: callers) (hw : m.heap.WellFormed)
    {task : Task} (ht : task.isPerformed = true) :
    Finishes m frame callers task.footprint.operands task.footprint (perform task m) := by
  have h0 := taken_zero hf
  cases task with
  | nothing => exact finishes_pure h0
  | constant value => exact finishes_push h0 value
  | loadArgument index => exact finishes_answer h0 (Nat.zero_le _) _ _
  | loadLocal index => exact finishes_answer h0 (Nat.zero_le _) _ _
  | storeArgument index =>
    refine (confined_pop h0 (Nat.zero_le _)).bind fun value _ hs => ?_
    exact finishes_storeArgument hs (Nat.le_refl _) index value
  | storeLocal index =>
    refine (confined_pop h0 (Nat.zero_le _)).bind fun value _ hs => ?_
    exact finishes_storeLocal hs (Nat.le_refl _) index value
  | duplicate =>
    refine (confined_pop h0 (Nat.zero_le _)).bind fun value _ hs => ?_
    obtain ⟨h, rfl⟩ := hs
    exact ⟨_, leaves_results h .nothing [value, value]⟩
  | discard =>
    exact (confined_pop h0 (Nat.zero_le _)).bind fun _ _ hs => finishes_pure hs
  | negate =>
    refine (confined_pop h0 (Nat.zero_le _)).bind fun _ _ hs => ?_
    exact finishes_answer hs (Nat.le_refl _) _ _
  | complement =>
    refine (confined_pop h0 (Nat.zero_le _)).bind fun _ _ hs => ?_
    exact finishes_answer hs (Nat.le_refl _) _ _
  | convert conversion =>
    refine (confined_pop h0 (Nat.zero_le _)).bind fun _ _ hs => ?_
    exact finishes_answer hs (Nat.le_refl _) _ _
  | cast target orNull =>
    refine (confined_pop h0 (Nat.zero_le _)).bind fun _ _ hs => ?_
    exact finishes_answer hs (Nat.le_refl _) _ _
  | binary op =>
    refine (confined_popTwo h0 (Nat.le_refl _)).bind fun _ _ hs => ?_
    exact finishes_answer hs (Nat.le_refl _) _ _
  | compare op =>
    refine (confined_popTwo h0 (Nat.le_refl _)).bind fun _ _ hs => ?_
    exact finishes_answer hs (Nat.le_refl _) _ _
  | loadString text =>
    refine (confined_allocString hw h0 (Nat.zero_le _) text).bind fun value _ hs => ?_
    obtain ⟨h, heap, hu, rfl⟩ := hs
    exact ⟨_, leaves_results h hu [value]⟩
  | newArray element =>
    refine (confined_popIndex h0 (Nat.le_refl _)).bind fun _ _ hs => ?_
    refine (confined_query hs (Nat.le_refl _) _).bind fun _ _ hs => ?_
    refine (confined_allocArray hw hs.1 (Nat.le_refl _) _).bind fun value _ hs => ?_
    obtain ⟨h, heap, hu, rfl⟩ := hs
    exact ⟨_, leaves_results h hu [value]⟩
  | loadField field =>
    refine (confined_popHandle h0 (Nat.le_refl _)).bind fun _ _ hs => ?_
    exact finishes_answer hs (Nat.le_refl _) _ _
  | storeField field =>
    refine (confined_pop h0 (Nat.zero_le _)).bind fun value _ hs => ?_
    refine (confined_popHandle hs (Nat.le_refl _)).bind fun handle _ hs => ?_
    exact finishes_setField hs (Nat.le_refl _) handle field.name value
  | loadStatic field =>
    refine (confined_query h0 (Nat.zero_le _) _).bind fun _ _ hs => ?_
    exact finishes_answer hs.1 (Nat.zero_le _) _ _
  | storeStatic field =>
    -- The type is resolved before the value is taken.
    refine (confined_query h0 (Nat.zero_le _) _).bind fun type _ hs => ?_
    obtain ⟨hs, htype⟩ := hs
    refine (confined_pop hs (Nat.zero_le _)).bind fun value _ hs => ?_
    exact finishes_setStatic hs (Machine.eq_ok_of_mapError htype) value
  | arrayLength =>
    refine (confined_popHandle h0 (Nat.le_refl _)).bind fun _ _ hs => ?_
    exact finishes_answer hs (Nat.le_refl _) _ _
  | loadElement =>
    refine (confined_popIndex h0 (Nat.le_succ _)).bind fun _ _ hs => ?_
    refine (confined_popHandle hs (Nat.le_refl _)).bind fun _ _ hs => ?_
    exact finishes_answer hs (Nat.le_refl _) _ _
  | storeElement =>
    refine (confined_pop h0 (Nat.zero_le _)).bind fun value _ hs => ?_
    refine (confined_popIndex hs (Nat.le_succ _)).bind fun index _ hs => ?_
    refine (confined_popHandle hs (Nat.le_refl _)).bind fun handle _ hs => ?_
    exact finishes_setElement hs (Nat.le_refl _) handle index value
  | _ => cases ht

/-- An instruction with a task of its own does it, and the next one follows. -/
theorem step_of_isPerformed {inst : Instruction} (ht : inst.task.isPerformed = true) :
    step inst = do
      perform inst.task
      return .next := by
  unfold step
  cases htask : inst.task <;> rw [htask] at ht <;> first | rfl | cases ht

/-- An instruction that goes on with the next one leaves its footprint or fails before. -/
theorem confined_step (hf : m.calls.frames = frame :: callers) (hw : m.heap.WellFormed)
    {inst : Instruction} (hn : inst.opcode.flow = .next) :
    Confined m frame callers inst.footprint.operands
      (fun flow m' => flow = .next ∧ ∃ after, inst.footprint.Leaves m frame callers after m')
      (step inst m) := by
  rcases Instruction.task_cases hn with hnone | hnone | ⟨ht, hfootprint⟩
  · rw [step, hnone]
    exact ⟨0, Nat.zero_le _, (taken_zero hf).machine⟩
  · rw [step, hnone]
    exact ⟨0, Nat.zero_le _, (taken_zero hf).machine⟩
  · rw [step_of_isPerformed ht, ← hfootprint]
    exact (finishes_perform hf hw ht).bind fun _ _ hleaves => ⟨rfl, hleaves⟩

end Exec

/-- The effect of one instruction that goes on with the next one. If it succeeds, its operands on
top of the evaluation stack are replaced by its results, and besides only the local, argument or
static field that it stores and the one object that it adds or changes are touched. If it fails, it
has taken some of its operands and changed nothing else. -/
theorem instruction_effect {m : Machine} {frame : Frame} {callers : List Frame}
    (hf : m.calls.frames = frame :: callers) (hw : m.heap.WellFormed) {inst : Instruction}
    (hn : inst.opcode.flow = .next) :
    (∀ flow m', Exec.step inst m = .ok flow m' →
      flow = .next ∧ ∃ after, inst.footprint.Leaves m frame callers after m') ∧
    ∀ fault m', Exec.step inst m = .error fault m' →
      ∃ taken, taken ≤ inst.footprint.operands ∧ m' = { m with
        calls := { m.calls with
          frames := { frame with stack := frame.stack.drop taken } :: callers } } := by
  have hconfined := Exec.confined_step hf hw hn
  refine ⟨fun flow m' hok => ?_, fun fault m' herror => ?_⟩
  · rw [hok] at hconfined
    exact hconfined
  · rw [herror] at hconfined
    exact hconfined

/-- A local that is addressed by the opcode is stored, and an element access on null has taken both
of its operands when it fails. -/
theorem instruction_effect_stored :
    let frame : Frame := ⟨none, ⟨0⟩, [.int32 7, .null], #[.null, .null, .null], []⟩
    let m : Machine := { Machine.new {} .empty with calls := ⟨[frame], 25, none⟩ }
    let stored : Instruction := ⟨.stloc2, 0, none⟩
    let accessed : Instruction := ⟨.ldelemI4, 0, none⟩
    m.calls.frames = [frame] ∧ m.heap.WellFormed ∧
      stored.opcode.flow = .next ∧ accessed.opcode.flow = .next ∧
      (∃ m' after, Exec.step stored m = .ok .next m' ∧
        m'.calls.frames = [{ frame with stack := [.null], locals := #[.null, .null, .int32 7] }] ∧
        stored.footprint.Leaves m frame [] after m') ∧
      ∃ fault m', Exec.step accessed m = .error fault m' ∧
        m'.calls.frames = [{ frame with stack := [] }] ∧
        ∃ taken, taken ≤ 2 ∧ m' = { m with
          calls := { m.calls with
            frames := [{ frame with stack := frame.stack.drop taken }] } } := by
  intro frame m stored accessed
  have hw : m.heap.WellFormed := Heap.wellFormed_empty _
  have hf : m.calls.frames = [frame] := rfl
  have hstored : stored.opcode.flow = .next := rfl
  have haccessed : accessed.opcode.flow = .next := rfl
  obtain ⟨hok, -⟩ := instruction_effect hf hw hstored
  obtain ⟨-, herror⟩ := instruction_effect hf hw haccessed
  obtain ⟨-, after, hleaves⟩ := hok .next _ rfl
  exact ⟨hf, hw, hstored, haccessed, ⟨_, after, rfl, rfl, hleaves⟩,
    _, _, rfl, rfl, herror _ _ rfl⟩

end ManagedCode
