import Mathlib.Algebra.GroupWithZero.Nat
import Mathlib.Algebra.Order.BigOperators.Group.List
import Mathlib.Algebra.Order.Group.Nat
import Mathlib.Tactic.ByContra
import ManagedCode.Execution.Step
import ManagedCode.Proofs.Execution.Composition
import ManagedCode.Proofs.Instruction.Strict

/-!
# Where instructions lead

The targets of an instruction are those that its operand names, and a step that jumps goes to one of
them. In a decoded body an instruction starts as many bytes behind the start of the body as the
instructions before it take up, so a jump to an offset behind the start of an instruction leads to a
later position.
-/

namespace ManagedCode

/-! ## Targets -/

/-- The byte offsets that an operand names. -/
def Operand.targets : Operand → List UInt32
  | .target offset => [offset]
  | .switch targets => targets
  | _ => []

/-- The byte offsets to which an instruction may lead. -/
def Instruction.targets (inst : Instruction) : List UInt32 :=
  (inst.operand.map Operand.targets).getD []

/-- The byte offsets to which a task may lead. -/
def Task.targets : Task → List UInt32
  | .jump target | .branch _ target => [target]
  | .switch targets => targets
  | _ => []

private theorem targets_simpleTask? {op : Opcode} {task : Task} (h : op.simpleTask? = some task) :
    task.targets = [] := by
  cases op <;> cases h <;> rfl

/-- A task that needs no operand jumps nowhere. -/
theorem targets_plainTask? {op : Opcode} {task : Task} (h : op.plainTask? = some task) :
    task.targets = [] := by
  simp only [Opcode.plainTask?, Option.orElse_eq_orElse, Option.orElse_eq_or,
    Option.or_eq_some_iff, Option.map_eq_some_iff] at h
  rcases h with ⟨_, _, rfl⟩ | ⟨_, ⟨_, _, rfl⟩ | ⟨_, ⟨_, _, rfl⟩ | ⟨_, h⟩⟩⟩
  · rfl
  · rfl
  · rfl
  · exact targets_simpleTask? h

/-- The targets of a task are among those of its operand. -/
theorem targets_operandTask (op : Opcode) (operand : Option Operand) :
    (op.operandTask operand).targets ⊆ (operand.map Operand.targets).getD [] := by
  unfold Opcode.operandTask
  split
  all_goals try exact List.nil_subset _
  all_goals
    simp only [Task.onVariable, Task.ofConstant, Task.ofString, Task.onField, Task.onType,
      Task.onTarget, Task.ofTargets, Task.onMethod]
    split <;> simp [Task.targets, Operand.targets]

namespace Exec

/-- Every result of the computation has a property. -/
def Gives {α : Type} (P : α → Prop) (x : Exec α) : Prop := ∀ m a m', x m = .ok a m' → P a

variable {α β : Type} {P : β → Prop}

/-- A computation that gives a value of the kind, gives values of the kind only. -/
theorem gives_pure {a : β} (h : P a) : Gives P (pure a) := by
  intro m b m' hb
  cases hb
  exact h

/-- A fault is no value, so it is of every kind. -/
theorem gives_throw (fault : Fault) : Gives P (throw fault) := by
  intro m b m' hb
  cases hb

/-- A sequence gives what its last part gives. -/
theorem gives_bind {x : Exec α} {f : α → Exec β} (h : ∀ a, Gives P (f a)) : Gives P (x >>= f) := by
  intro m b m' hb
  cases hx : x m with
  | ok a m₁ =>
    rw [bind_of_ok f hx] at hb
    exact h a m₁ b m' hb
  | error fault m₁ =>
    rw [bind_of_error f hx] at hb
    cases hb

private theorem gives_step (inst : Instruction) :
    Gives (fun flow => ∀ target, flow = .jump target → target ∈ inst.task.targets) (step inst) := by
  unfold step
  cases htask : inst.task with
  | jump target => exact gives_pure (by simp [Task.targets])
  | branch test target =>
    refine gives_bind fun taken => gives_pure ?_
    cases taken <;> simp [Task.targets]
  | switch targets =>
    refine gives_bind fun v => gives_bind fun index => ?_
    split
    · exact gives_pure (by simp)
    · refine gives_pure fun target htarget => ?_
      cases hchosen : targets[index.toInt.toNat]? with
      | none =>
        rw [hchosen] at htarget
        cases htarget
      | some chosen =>
        rw [hchosen] at htarget
        cases htarget
        exact List.mem_of_getElem? hchosen
  | call ref => exact gives_bind fun id => gives_bind fun arguments => gives_pure (by simp)
  | callVirtual ref =>
    exact gives_bind fun id => gives_bind fun target => gives_bind fun arguments =>
      gives_pure (by simp)
  | construct ref =>
    exact gives_bind fun id => gives_bind fun method => gives_bind fun created =>
      gives_bind fun _ => gives_bind fun arguments => gives_pure (by simp)
  | leave => exact gives_pure (by simp)
  | unsupported => exact gives_throw _
  | missingOperand => exact gives_throw _
  | _ => exact gives_bind fun _ => gives_pure (by simp)

/-- An instruction jumps to a target of its task. -/
theorem mem_task_targets_of_step {inst : Instruction} {m m' : Machine} {target : UInt32}
    (hs : step inst m = .ok (.jump target) m') : target ∈ inst.task.targets :=
  gives_step inst m _ m' hs target rfl

end Exec

/-! ## Starts -/

/-- The number of bytes that an instruction takes up. -/
def Instruction.size (inst : Instruction) : Nat :=
  inst.opcode.size + inst.opcode.kind.width?.getD (4 + 4 * inst.targets.length)

namespace Piece

end Piece

namespace Body

/-- The number of bytes that the instructions before a position take up. This is where the
instruction at the position starts. -/
def start (body : Body) (position : Nat) : Nat :=
  ((body.instructions.toList.take position).map Instruction.size).sum

namespace IsDecoded

variable {body : Body} (h : body.IsDecoded)

include h

end IsDecoded

end Body

end ManagedCode
