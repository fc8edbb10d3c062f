import ManagedCode.Proofs.Execution.Composition

/-!
# Operations on the evaluation stack

What an instruction does with operands that were just pushed: it takes them off again, so that the
machine is as it was before them, and pushes its result. A computation that the values allow
therefore replaces its operands and leaves everything else alone.
-/

namespace ManagedCode

/-- The machine with a value pushed by the running method. -/
def Machine.pushed (m : Machine) (value : Value) : Machine :=
  { m with calls := m.calls.modifyTop (·.push value) }

namespace Exec

variable {m : Machine} {value : Value}

/-! ## Pushing and popping -/

/-- With an active frame, a push succeeds. -/
theorem push_eq_ok (hm : m.calls.frames ≠ []) : push value m = .ok () (m.pushed value) := by
  obtain ⟨frame, frames, hframes⟩ := List.exists_cons_of_ne_nil hm
  simp [push, Machine.pushed, CallStack.top?, hframes]

/-- Popping undoes pushing. -/
theorem pop_pushed (hm : m.calls.frames ≠ []) : pop (m.pushed value) = .ok value m := by
  obtain ⟨frame, frames, hframes⟩ := List.exists_cons_of_ne_nil hm
  obtain ⟨catalog, heap, ⟨_, maxDepth, lastExited⟩, statics, core, options, output, files⟩ := m
  cases hframes
  rfl

/-- A push leaves the frame active. -/
theorem frames_pushed (hm : m.calls.frames ≠ []) : (m.pushed value).calls.frames ≠ [] := by
  obtain ⟨frame, frames, hframes⟩ := List.exists_cons_of_ne_nil hm
  simp [Machine.pushed, CallStack.modifyTop, hframes]

/-- What was pushed can be read off the machine. -/
theorem pushed_inj (hm : m.calls.frames ≠ []) {other : Value}
    (h : m.pushed value = m.pushed other) : value = other := by
  have hpop : pop (m.pushed value) = .ok value m := pop_pushed hm
  rw [h, pop_pushed hm] at hpop
  exact (EStateM.Result.ok.inj hpop).1.symm

/-- The two values that were pushed last are popped in the order of their pushing. -/
theorem popTwo_pushed (hm : m.calls.frames ≠ []) {a b : Value} :
    popTwo ((m.pushed a).pushed b) = .ok (a, b) m := by
  rw [popTwo, bind_of_ok _ (pop_pushed (frames_pushed hm)), bind_of_ok _ (pop_pushed hm)]
  rfl

/-- A check gives the answer that there is. -/
theorem check_eq_ok {α : Type} {result : Except Fault α} {a : α} (h : result = .ok a) :
    check result m = .ok a m := by
  rw [check, query_apply, h]

/-- A check raises the fault that there is. -/
theorem check_eq_error {α : Type} {result : Except Fault α} {fault : Fault}
    (h : result = .error fault) : check result m = .error fault m := by
  rw [check, query_apply, h]

/-! ## Storing -/

/-- With room on the heap, an object is stored. -/
theorem store_of_room (hr : m.heap.isFull = false) (object : Object) :
    store object m =
      .ok (m.heap.add object).1 { m with heap := (m.heap.add object).2 } := by
  simp only [store, hr, Bool.false_eq_true, if_false]

/-- Without room on the heap, no object is stored. -/
theorem store_of_full (hr : m.heap.isFull = true) (object : Object) :
    store object m = .error (.heap (.full m.heap.capacity)) m := by
  simp only [store, hr, if_true]

/-! ## Instructions -/

section

variable {inst : Instruction} {a b : Value}

/-- An opcode with a task of its own leaves its operand alone. -/
theorem task_of_plainTask {task : Task} (h : inst.opcode.plainTask? = some task) :
    inst.task = task := by
  rw [Instruction.task, h]

/-- An opcode that branches has no task without its target. -/
theorem plainTask_of_branchTest {op : Opcode} {test : BranchTest}
    (h : op.branchTest? = some test) : op.plainTask? = none := by
  cases op <;> first | rfl | cases h

/-- An opcode that branches does so to its target. -/
theorem task_of_branchTest {test : BranchTest} {target : UInt32}
    (h : inst.opcode.branchTest? = some test) (ho : inst.operand = some (.target target)) :
    inst.task = .branch test target := by
  rw [Instruction.task, plainTask_of_branchTest h, h, ho]
  rfl

/-- A conversion replaces its operand. -/
theorem step_convert (hm : m.calls.frames ≠ []) {c : Conversion} {result : Value}
    (ht : inst.task = .convert c) (hr : Value.convert c a = .ok result) :
    step inst (m.pushed a) = .ok .next (m.pushed result) := by
  have hperform : perform (.convert c) (m.pushed a) = .ok () (m.pushed result) := by
    rw [perform, bind_of_ok _ (pop_pushed hm), bind_of_ok _ (check_eq_ok hr)]
    exact push_eq_ok hm
  rw [step, ht]
  exact bind_of_ok _ hperform

/-- A comparison replaces its operands by its truth value. -/
theorem step_compare (hm : m.calls.frames ≠ []) {op : CompareOp} {truth : Bool}
    (ht : inst.task = .compare op) (hr : Value.compare op a b = .ok truth) :
    step inst ((m.pushed a).pushed b) = .ok .next (m.pushed (.ofBool truth)) := by
  have hperform : perform (.compare op) ((m.pushed a).pushed b) =
      .ok () (m.pushed (.ofBool truth)) := by
    rw [perform, bind_of_ok _ (popTwo_pushed hm)]
    exact (bind_of_ok _ (check_eq_ok hr)).trans (push_eq_ok hm)
  rw [step, ht]
  exact bind_of_ok _ hperform

/-- A conditional branch takes its operands and goes where its test says. -/
theorem step_branch {test : BranchTest} {target : UInt32} {start : Machine} {taken : Bool}
    (ht : inst.task = .branch test target) (hb : branches test start = .ok taken m) :
    step inst start = .ok (if taken then .jump target else .next) m := by
  rw [step, ht]
  exact bind_of_ok _ hb

/-- A branch that compares is taken exactly if the comparison holds. -/
theorem branches_compares (hm : m.calls.frames ≠ []) {op : CompareOp} {truth : Bool}
    (hr : Value.compare op a b = .ok truth) :
    branches (.compares op) ((m.pushed a).pushed b) = .ok truth m := by
  rw [branches, bind_of_ok _ (popTwo_pushed hm)]
  exact check_eq_ok hr

/-- A branch on falsehood is taken exactly if the value counts as false. -/
theorem branches_isFalse (hm : m.calls.frames ≠ []) :
    branches .isFalse (m.pushed value) = .ok value.isFalse m := by
  rw [branches, bind_of_ok _ (pop_pushed hm)]
  rfl

end

end Exec

end ManagedCode
