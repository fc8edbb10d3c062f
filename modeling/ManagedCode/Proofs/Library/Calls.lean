import ManagedCode.Proofs.Catalog.Subtyping
import ManagedCode.Proofs.Execution.Layout
import ManagedCode.Proofs.Execution.Operations
import ManagedCode.Proofs.Execution.Permanence

/-!
# Calls of built-in methods

A reference to a member of a built-in type resolves to a method that does what the library says,
whatever was loaded. A call of it enters a frame, runs that behaviour on the arguments and leaves
the frame again. So what such a call does to a machine is what the behaviour does to the heap, and
nothing else changes but the frame that was left last.
-/

namespace ManagedCode

/-! ## Members -/

namespace Library

/-- A reference to a built-in type. -/
def TypeEntry.ref (type : TypeEntry) : TypeRef := ⟨coreAssembly, type.nameSpace, type.name⟩

/-- A reference to a member of a type. -/
def Member.ref (member : Member) (type : TypeRef) : MethodRef :=
  ⟨type, member.name, member.signature⟩

/-- Whether a call of the member leaves a value. -/
def Member.returnsValue (member : Member) : Bool :=
  member.name != MethodRef.constructorName && !member.signature.returnType.isVoid

end Library

open Library (Member TypeEntry)

/-- The method of the catalog does what the member of a built-in type does. -/
structure Catalog.Implants (catalog : Catalog) (type : TypeRef) (member : Member) (id : MethodId) :
    Prop where
  resolveMethod : catalog.resolveMethod (member.ref type) = .ok id
  isNative : (catalog.method id).isNative = true
  returnsValue : (catalog.method id).returnsValue = member.returnsValue
  native : Library.native? (catalog.fullName (catalog.method id).declaringType)
    (catalog.method id).name (catalog.method id).arity = some member.native

namespace Library

/-- Every member of a built-in type has its method in the catalog of the library. -/
private theorem exists_method {type : TypeEntry} (ht : type ∈ types) {member : Member}
    (hm : member ∈ type.members) : ∃ id, catalog.resolveMethod (member.ref type.ref) = .ok id ∧
      id.index < catalog.methods.size ∧ (catalog.method id).isNative = true ∧
      (catalog.method id).returnsValue = member.returnsValue ∧
      (catalog.type (catalog.method id).declaringType).assembly.index < catalog.assemblies.size ∧
      native? (catalog.fullName (catalog.method id).declaringType) (catalog.method id).name
        (catalog.method id).arity = some member.native := by
  have hall : ∀ type ∈ types, ∀ member ∈ type.members,
      (catalog.resolveMethod (member.ref type.ref)).toOption.any (fun id =>
        decide (id.index < catalog.methods.size ∧ (catalog.method id).isNative = true ∧
          (catalog.method id).returnsValue = member.returnsValue ∧
          (catalog.type (catalog.method id).declaringType).assembly.index <
            catalog.assemblies.size ∧
          native? (catalog.fullName (catalog.method id).declaringType) (catalog.method id).name
            (catalog.method id).arity = some member.native)) = true := by
    decide +kernel
  have hfound := hall type ht member hm
  cases hr : catalog.resolveMethod (member.ref type.ref) with
  | error fault =>
    rw [hr] at hfound
    cases hfound
  | ok id =>
    rw [hr] at hfound
    exact ⟨id, rfl, of_decide_eq_true hfound⟩

/-- Whatever was loaded, a member of a built-in type has its method. -/
theorem exists_implants {more : Catalog} (h : catalog.Extends more) {type : TypeEntry}
    (ht : type ∈ types) {member : Member} (hm : member ∈ type.members) :
    ∃ id, more.Implants type.ref member id := by
  obtain ⟨id, hresolved, hlt, hnative, hreturns, hassembly, hfound⟩ := exists_method ht hm
  have hmethod : more.method id = catalog.method id := h.method_eq hlt
  have hdeclared : (catalog.method id).declaringType.index < catalog.types.size := by
    refine (declaringType_of_mem ?_).1
    rw [Catalog.method, Array.getD_eq_getD_getElem?, Array.getElem?_eq_getElem hlt]
    exact Array.getElem_mem hlt
  refine ⟨id, h.resolveMethod_eq Catalog.closed_library hresolved, ?_, ?_, ?_⟩
  · rw [hmethod, hnative]
  · rw [hmethod, hreturns]
  · rw [hmethod, h.fullName_eq hdeclared hassembly, hfound]

end Library

/-! ## Arguments -/

namespace Native

open Exec

section Arguments

variable {m : Machine} {arguments : List Value}

/-- Only an active frame has arguments. -/
theorem frames_of_arguments (h : m.arguments = .ok arguments) : m.calls.frames ≠ [] := by
  intro hnil
  simp [Machine.arguments, CallStack.top?, hnil] at h

/-- An argument that was passed is found. -/
theorem argument_eq_ok (h : m.arguments = .ok arguments) {i : Nat} {value : Value}
    (hi : arguments[i]? = some value) : argument i m = .ok value m := by
  have hvalue : m.argument i = .ok value := by
    refine bind_eq_ok_iff.mpr ⟨arguments, h, ?_⟩
    rw [hi]
    rfl
  rw [argument, query_apply, hvalue]

/-- The text of an argument that was passed. -/
theorem textArgument_eq_ok (h : m.arguments = .ok arguments) {i : Nat} {value : Value}
    (hi : arguments[i]? = some value) {text : String} (ht : m.textOf value = .ok text) :
    textArgument i m = .ok text m := by
  refine (bind_of_ok _ (argument_eq_ok h hi)).trans ?_
  rw [query_apply, ht]

end Arguments

end Native

/-! ## Machines with the library -/

namespace Machine

/-- The machine has the built-in types, and its heap is in order. -/
structure Equipped (m : Machine) : Prop where
  catalog : Library.catalog.Extends m.catalog
  core : m.core = Library.coreTypes
  heap : m.heap.WellFormed

end Machine

open Machine in
/-- No action of a host changes which types strings, arrays and lists have. -/
theorem Action.core_run {action : Action} {fuel : Nat} {m : Machine}
    {outcome : Outcome (List Value)} (hw : m.heap.WellFormed)
    (h : action.run fuel m = some outcome) : outcome.machine.core = m.core := by
  obtain ⟨image, -, hm⟩ | ⟨-, hm⟩ | ⟨type, -, hm⟩ | hleads := Action.run_cases h
  · rw [hm, Machine.load, machine_loadModule]
  · rw [hm]
    rfl
  · have hmake : Exec.instantiate type m = Exec.store ⟨type, Exec.initialSlots m type⟩ m := rfl
    rw [hm, hmake, Exec.store]
    split <;> rfl
  · exact (hleads.preserves hw).core

/-- Every machine that a host gets to is equipped, whatever it passes and changes. -/
theorem Attainable.equipped {options : Options} {files : Files} {m : Machine}
    (h : Attainable options files m) : m.Equipped := by
  refine ⟨h.loaded.extends_library, ?_, h.heap.1⟩
  induction h with
  | new => rfl
  | act action fuel h hr ih => exact (Action.core_run h.heap.1 hr).trans ih
  | edit handle f _ ih => exact ih
  | write text _ ih => exact ih
  | setFiles others _ ih => exact ih

namespace Machine

/-! ## Calls -/

/-- The machine after a call that left this heap and changed nothing else. The frame of the call is
the one that was left last. -/
def returned (m : Machine) (id : MethodId) (arguments : List Value) (heap : Heap) : Machine :=
  { m with heap, calls := { m.calls with lastExited := (m.withFrame id arguments).calls.top? } }

/-- Every call of the method ends with the result and leaves the heap, and nothing else changes. -/
def Returns (m : Machine) (method : MethodRef) (arguments : List Value) (result : Option Value)
    (heap : Heap) : Prop :=
  ∃ id, m.catalog.resolveMethod method = .ok id ∧
    ∀ fuel, m.call fuel id arguments = some (.ok result (m.returned id arguments heap))

/-- Every call of the method ends with the fault, and nothing changes, the heap included. -/
def Refuses (m : Machine) (method : MethodRef) (arguments : List Value) (fault : Fault) : Prop :=
  ∃ id, m.catalog.resolveMethod method = .ok id ∧
    ∀ fuel, m.call fuel id arguments = some (.error fault (m.returned id arguments m.heap))

/-- The running machine when a behaviour has left its result on the evaluation stack. -/
def finished (m : Machine) (result : Option Value) (heap : Heap) : Machine :=
  match result with
  | some value => Machine.pushed { m with heap } value
  | none => { m with heap }

section Calling

variable {m : Machine} {type : TypeEntry} {member : Member} {arguments : List Value} {id : MethodId}

/-- A call of a member runs its behaviour in a frame of its own. -/
theorem call_of_implants (hroom : m.calls.depth < m.calls.maxDepth)
    (h : m.catalog.Implants type.ref member id) (fuel : Nat) :
    m.call fuel id arguments = some (leave id (member.native.run (m.withFrame id arguments))) := by
  have henter : Exec.enter id arguments m = .ok () (m.withFrame id arguments) := by
    rw [enter_apply, if_neg (Nat.not_le.mpr hroom)]
  have hrun : Exec.runNative id (m.withFrame id arguments) =
      member.native.run (m.withFrame id arguments) := by
    have hcatalog : (m.withFrame id arguments).catalog = m.catalog := rfl
    unfold Exec.runNative
    refine (Exec.bind_of_ok _ (Exec.query_apply _ _)).trans ?_
    dsimp only
    rw [hcatalog, h.native]
  have hnative : ((m.withFrame id arguments).catalog.method id).isNative = true := h.isNative
  simp only [call, callWith, henter, hnative, if_true, hrun, Option.map_some]

/-- A behaviour that leaves its result on the evaluation stack gives it to the caller. -/
theorem leave_finished (h : m.catalog.Implants type.ref member id) {result : Option Value}
    (hresult : result.isSome = member.returnsValue) (heap : Heap) :
    leave id (.ok () ((m.withFrame id arguments).finished result heap)) =
      .ok result (m.returned id arguments heap) := by
  have hreturns : (m.catalog.method id).returnsValue = result.isSome :=
    h.returnsValue.trans hresult.symm
  cases result with
  | none =>
    show Exec.takeResult id (m.returned id arguments heap) = _
    have hnone : ((m.returned id arguments heap).catalog.method id).returnsValue = false := hreturns
    simp only [Exec.takeResult, hnone, Bool.false_eq_true, if_false]
  | some value =>
    have hsome : ((Machine.exitFrame ((m.withFrame id arguments).finished (some value)
        heap)).catalog.method id).returnsValue = true := hreturns
    simp only [leave, Exec.takeResult, hsome, if_true]
    rfl

/-- What a behaviour gives in a frame with the arguments, a call of its method gives. -/
theorem returns_of_implants (hroom : m.calls.depth < m.calls.maxDepth)
    (h : m.catalog.Implants type.ref member id) {result : Option Value} {heap : Heap}
    (hresult : result.isSome = member.returnsValue)
    (hrun : member.native.run (m.withFrame id arguments) =
      .ok () ((m.withFrame id arguments).finished result heap)) :
    m.Returns (member.ref type.ref) arguments result heap := by
  refine ⟨id, h.resolveMethod, fun fuel => ?_⟩
  rw [call_of_implants hroom h, hrun, leave_finished h hresult]

/-- What a behaviour gives on every machine with the arguments, a call of its member gives. -/
theorem Equipped.returns (hm : m.Equipped) (hroom : m.calls.depth < m.calls.maxDepth)
    (htype : type ∈ Library.types) (hmember : member ∈ type.members) {result : Option Value}
    {heap : Heap} (hresult : result.isSome = member.returnsValue)
    (hrun : ∀ id, member.native.run (m.withFrame id arguments) =
      .ok () ((m.withFrame id arguments).finished result heap)) :
    m.Returns (member.ref type.ref) arguments result heap := by
  obtain ⟨id, himplants⟩ := Library.exists_implants hm.catalog htype hmember
  exact returns_of_implants hroom himplants hresult (hrun id)

/-- A behaviour that faults on every machine with the arguments is a call that faults. -/
theorem Equipped.refuses (hm : m.Equipped) (hroom : m.calls.depth < m.calls.maxDepth)
    (htype : type ∈ Library.types) (hmember : member ∈ type.members) {fault : Fault}
    (hrun : ∀ id, member.native.run (m.withFrame id arguments) =
      .error fault (m.withFrame id arguments)) :
    m.Refuses (member.ref type.ref) arguments fault := by
  obtain ⟨id, himplants⟩ := Library.exists_implants hm.catalog htype hmember
  refine ⟨id, himplants.resolveMethod, fun fuel => ?_⟩
  rw [call_of_implants hroom himplants, hrun]
  rfl

end Calling

end Machine

end ManagedCode
