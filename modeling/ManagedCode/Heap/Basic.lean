import ManagedCode.Heap.Object

/-!
# The heap

A store of objects with a limit on the number of live ones. An object is kept in a numbered entry.
An emptied entry is used again for a later object, the one emptied last first, and its generation
tells the handles to the two objects apart. Storing never reclaims anything.
-/

namespace ManagedCode

/-- A numbered place for an object. -/
structure Entry where
  /-- How often the entry has been emptied, modulo `2 ^ 32`. -/
  generation : UInt32
  /-- The object, if the entry is in use. -/
  object : Option Object
  deriving DecidableEq, Repr

/-- The entry without its object. -/
def Entry.clear (entry : Entry) : Entry := ⟨entry.generation + 1, none⟩

/-- A store of objects. -/
structure Heap where
  /-- The entries by number. -/
  entries : Array Entry
  /-- The numbers of the empty entries, the one emptied last first. -/
  free : List Nat
  /-- The greatest number of live objects. -/
  capacity : Nat
  /-- The number of live objects. -/
  live : Nat
  deriving DecidableEq, Repr

namespace Heap

/-- A heap without objects. -/
def empty (capacity : Nat) : Heap := ⟨#[], [], capacity, 0⟩

/-- The handle of the object in an entry. -/
def handleOf (index : Nat) (entry : Entry) : Handle := ⟨index.toUInt32, entry.generation⟩

/-- The entry that a handle names, if its generation is that of the handle. -/
def entry? (heap : Heap) (handle : Handle) : Option Entry :=
  heap.entries[handle.index.toNat]?.filter fun e => e.generation == handle.generation

/-- The object that a handle names. -/
def get? (heap : Heap) (handle : Handle) : Option Object :=
  (heap.entry? handle).bind (·.object)

/-- The object that a handle names, or the error that there is none. -/
def get (heap : Heap) (handle : Handle) : Except HeapError Object :=
  match heap.get? handle with
  | some object => .ok object
  | none => .error (.notFound handle)

/-- Whether as many objects as the heap may hold are live. -/
def isFull (heap : Heap) : Bool := heap.capacity ≤ heap.live

/-- Puts an object into the entry that was emptied last, or into a new one if none is empty. -/
def add (heap : Heap) (object : Object) : Handle × Heap :=
  match heap.free with
  | index :: free =>
    let generation := (heap.entries[index]?.map (·.generation)).getD 0
    (⟨index.toUInt32, generation⟩,
      { heap with
        entries := heap.entries.modify index fun e => { e with object := some object }
        free
        live := heap.live + 1 })
  | [] =>
    (⟨heap.entries.size.toUInt32, 0⟩,
      { heap with entries := heap.entries.push ⟨0, some object⟩, live := heap.live + 1 })

/-- Stores an object, unless the heap is full. -/
def store (heap : Heap) (object : Object) : Except HeapError (Handle × Heap) :=
  if heap.isFull then .error (.full heap.capacity) else .ok (heap.add object)

/-- Changes the object that a handle names, if it names one. -/
def modify (heap : Heap) (handle : Handle) (f : Object → Object) : Heap :=
  { heap with
    entries := heap.entries.modify handle.index.toNat fun e =>
      if e.generation == handle.generation then { e with object := e.object.map f } else e }

/-- Removes the object that a handle names. The handle and every copy of it become stale. -/
def release (heap : Heap) (handle : Handle) : Except HeapError (Object × Heap) :=
  match heap.get? handle with
  | none => .error (.notFound handle)
  | some object =>
    .ok (object,
      { heap with
        entries := heap.entries.modify handle.index.toNat Entry.clear
        free := handle.index.toNat :: heap.free
        live := heap.live - 1 })

/-- The handles of the live objects, in the order of their entries. -/
def handles (heap : Heap) : List Handle :=
  (heap.entries.toList.mapIdx fun index e => (index, e)).filterMap fun (index, e) =>
    if e.object.isSome then some (handleOf index e) else none

end Heap

end ManagedCode
