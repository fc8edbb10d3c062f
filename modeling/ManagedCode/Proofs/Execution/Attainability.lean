import ManagedCode.Proofs.Execution.Changes

/-!
# Everything a host can do

A host need not be careful: it may pass handles that were removed or never given out, replace the
content of arrays and lists, write to the console and change the files. References of the machine
may dangle then, but its heap stays well-formed and keeps its capacity, because a program changes
the heap only by storing an object where there is room and by changing an object in place.
-/

namespace ManagedCode

namespace Machine

/-- The heap of the second machine is in order if that of the first one is. -/
structure KeepsHeap (m m' : Machine) : Prop where
  wellFormed : m.heap.WellFormed → m'.heap.WellFormed
  capacity : m'.heap.capacity = m.heap.capacity

/-- The same heap is kept. -/
theorem KeepsHeap.of_eq {m m' : Machine} (h : m'.heap = m.heap) : m.KeepsHeap m' :=
  ⟨fun hw => h ▸ hw, congrArg Heap.capacity h⟩

/-- Nothing happens to the heap where nothing happens. -/
theorem KeepsHeap.refl (m : Machine) : m.KeepsHeap m := .of_eq rfl

/-- A heap that is kept in two stages is kept. -/
theorem KeepsHeap.trans {a b c : Machine} (hab : a.KeepsHeap b) (hbc : b.KeepsHeap c) :
    a.KeepsHeap c :=
  ⟨fun hw => hbc.wellFormed (hab.wellFormed hw), hbc.capacity.trans hab.capacity⟩

/-- A heap is kept when an object is changed. -/
theorem keepsHeap_modify (m : Machine) (handle : Handle) (f : Object → Object) :
    m.KeepsHeap { m with heap := m.heap.modify handle f } :=
  ⟨fun hw => hw.modify handle f, rfl⟩

/-- A heap is kept when an object is stored, or refused. -/
theorem keepsHeap_store (object : Object) (m : Machine) :
    m.KeepsHeap (Outcome.machine (Exec.store object m)) := by
  unfold Exec.store
  cases hf : m.heap.isFull with
  | true => exact .refl m
  | false => exact ⟨fun hw => hw.add hf object, Heap.capacity_add ..⟩

/-- A heap is kept when a module is loaded, or rejected. -/
theorem keepsHeap_load (image : Image) (m : Machine) :
    m.KeepsHeap (Outcome.machine (m.load image)) := by
  unfold load loadModule
  split <;> exact .of_eq rfl

/-- A heap is kept when garbage is removed. -/
theorem keepsHeap_collectGarbage (m : Machine) : m.KeepsHeap m.collectGarbage.2 :=
  ⟨fun hw => hw.collect m.roots, rfl⟩

/-- One change that a program makes keeps the heap in order. -/
theorem Change.keepsHeap {m m' : Machine} (h : Change m m') : m.KeepsHeap m' := by
  cases h with
  | calls calls => exact .of_eq rfl
  | statics statics => exact .of_eq rfl
  | write text => exact .of_eq rfl
  | files files => exact .of_eq rfl
  | make hr hm => exact ⟨fun hw => hw.add hr _, Heap.capacity_add ..⟩
  | edit hf => exact keepsHeap_modify m _ _

/-- A heap is kept through all changes of programs. -/
theorem Leads.keepsHeap {m m' : Machine} (h : m.Leads m') : m.KeepsHeap m' :=
  h.keeps (fun hc hkept => hkept.trans hc.keepsHeap) (.refl m)

end Machine

/-! ## Actions -/

open Machine

/-- Every action keeps the heap in order, whatever the host passes. -/
theorem Action.keepsHeap_run {action : Action} {fuel : Nat} {m : Machine}
    {outcome : Outcome (List Value)} (h : action.run fuel m = some outcome) :
    m.KeepsHeap outcome.machine := by
  obtain ⟨image, -, hm⟩ | ⟨-, hm⟩ | ⟨type, -, hm⟩ | hleads := Action.run_cases h
  · exact hm ▸ keepsHeap_load image m
  · exact hm ▸ keepsHeap_collectGarbage m
  · exact hm ▸ keepsHeap_store ⟨type, Exec.initialSlots m type⟩ m
  · exact hleads.keepsHeap

/-- The machines that a host gets to from a new machine, whatever it passes and changes. -/
inductive Attainable (options : Options) (files : Files) : Machine → Prop
  | new : Attainable options files (Machine.new options files)
  | act {m : Machine} {outcome : Outcome (List Value)} (action : Action) (fuel : Nat)
      (h : Attainable options files m) (hr : action.run fuel m = some outcome) :
      Attainable options files outcome.machine
  /-- The content of an array or list, or of any other object, is changed in place. -/
  | edit {m : Machine} (handle : Handle) (f : Object → Object) (h : Attainable options files m) :
      Attainable options files { m with heap := m.heap.modify handle f }
  | write {m : Machine} (text : String) (h : Attainable options files m) :
      Attainable options files { m with output := m.output ++ text }
  /-- The files change without the machine. -/
  | setFiles {m : Machine} (others : Files) (h : Attainable options files m) :
      Attainable options files { m with files := others }

/-- A host that passes only live references is a host. -/
theorem Reachable.attainable {options : Options} {files : Files} {m : Machine}
    (h : Reachable options files m) : Attainable options files m := by
  induction h with
  | new => exact .new
  | act action fuel _ _ hr ih => exact .act action fuel ih hr

/-- The heap of every attainable machine is in order and has the capacity of the options. -/
theorem Attainable.heap {options : Options} {files : Files} {m : Machine}
    (h : Attainable options files m) :
    m.heap.WellFormed ∧ m.heap.capacity = options.heapCapacity := by
  induction h with
  | new => exact ⟨Heap.wellFormed_empty _, rfl⟩
  | act action fuel _ hr ih =>
    have hkept := Action.keepsHeap_run hr
    exact ⟨hkept.wellFormed ih.1, hkept.capacity.trans ih.2⟩
  | edit handle f _ ih => exact ⟨ih.1.modify handle f, ih.2⟩
  | write text _ ih => exact ih
  | setFiles others _ ih => exact ih

end ManagedCode
