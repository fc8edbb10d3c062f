import ManagedCode.Proofs.Execution.Jumps
import ManagedCode.Proofs.Renaming.Alike

/-!
# Bodies that differ in the width of branches

A branch has a short form, with its displacement in one byte, and a long one. Two bodies match when
they have the same instructions one by one, except that some short branches of the first are long in
the second and that targets are other offsets, which lead to the same positions. A step of an
instruction and one of the instruction that matches it do the same, and go on at offsets that lead
to the same position.
-/

namespace ManagedCode

/-- The long form of a short branch. -/
def Opcode.long? : Opcode → Option Opcode
  | .brS => some .br
  | .brfalseS => some .brfalse
  | .brtrueS => some .brtrue
  | .beqS => some .beq
  | .bgeS => some .bge
  | .bgtS => some .bgt
  | .bleS => some .ble
  | .bltS => some .blt
  | .bneUnS => some .bneUn
  | .bgeUnS => some .bgeUn
  | .bgtUnS => some .bgtUn
  | .bleUnS => some .bleUn
  | .bltUnS => some .bltUn
  | .leaveS => some .leave
  | _ => none

/-- The operands are equal except for their targets, which are in the relation `reach`. -/
inductive Operand.Matches (reach : UInt32 → UInt32 → Prop) : Operand → Operand → Prop
  | same {operand : Operand} (h : operand.targets = []) : Operand.Matches reach operand operand
  | target {t t' : UInt32} (h : reach t t') : Operand.Matches reach (.target t) (.target t')
  | switch {ts ts' : List UInt32} (h : List.Forall₂ reach ts ts') :
      Operand.Matches reach (.switch ts) (.switch ts')

/-- The instructions are equal except that the second may be the long form of the first, and for
their offsets and targets. -/
inductive Instruction.Matches (reach : UInt32 → UInt32 → Prop) : Instruction → Instruction → Prop
  | same (op : Opcode) (offset offset' : UInt32) {operand operand' : Option Operand}
      (h : Option.Rel (Operand.Matches reach) operand operand') :
      Instruction.Matches reach ⟨op, offset, operand⟩ ⟨op, offset', operand'⟩
  | widened {op op' : Opcode} (hl : op.long? = some op') (offset offset' : UInt32)
      {t t' : UInt32} (h : reach t t') :
      Instruction.Matches reach ⟨op, offset, some (.target t)⟩ ⟨op', offset', some (.target t')⟩

/-- The instructions match one by one, where targets match that lead to the same position. -/
def Body.Matches (body body' : Body) : Prop :=
  List.Forall₂ (Instruction.Matches fun t t' => body.indexOf? t = body'.indexOf? t')
    body.instructions.toList body'.instructions.toList

/-- Operands whose targets match in one way do so in every weaker way. -/
theorem Operand.Matches.imp {reach other : UInt32 → UInt32 → Prop}
    (hr : ∀ t t', reach t t' → other t t') {a b : Operand} (h : a.Matches reach b) :
    a.Matches other b := by
  cases h with
  | same h => exact .same h
  | target h => exact .target (hr _ _ h)
  | switch h => exact .switch (h.imp hr)

/-- Instructions whose targets match in one way do so in every weaker way. -/
theorem Instruction.Matches.imp {reach other : UInt32 → UInt32 → Prop}
    (hr : ∀ t t', reach t t' → other t t') {inst inst' : Instruction}
    (h : inst.Matches reach inst') : inst.Matches other inst' := by
  cases h with
  | same op offset offset' h =>
    refine .same op offset offset' ?_
    cases h with
    | none => exact .none
    | some h => exact .some (h.imp hr)
  | widened hl offset offset' h => exact .widened hl offset offset' (hr _ _ h)

namespace Body

/-- A body matches itself. -/
theorem Matches.refl (body : Body) : body.Matches body := by
  refine List.forall₂_same.mpr fun inst _ => .same inst.opcode inst.offset inst.offset ?_
  cases inst.operand with
  | none => exact .none
  | some operand =>
    refine .some ?_
    cases operand with
    | target t => exact .target rfl
    | switch ts => exact .switch (List.forall₂_same.mpr fun _ _ => rfl)
    | _ => exact .same rfl

/-- A body is empty exactly if a matching one is. -/
theorem Matches.isEmpty_eq {body body' : Body} (h : body.Matches body') :
    body.isEmpty = body'.isEmpty := by
  have hlength := h.length_eq
  rw [Array.length_toList, Array.length_toList] at hlength
  rw [isEmpty, isEmpty, Array.isEmpty, Array.isEmpty, hlength]

/-- Bodies that match have instructions in the same positions, with targets in the same positions.
-/
theorem Matches.get? {body body' : Body} (h : body.Matches body') (position : Nat) :
    Option.Rel (Instruction.Matches fun t t' => body.indexOf? t = body'.indexOf? t')
      (body.get? position) (body'.get? position) := by
  have hrel := rel_getElem? h position
  rwa [Array.getElem?_toList, Array.getElem?_toList] at hrel

end Body

/-! ## Tasks -/

/-- The tasks are equal except for their targets, which are in the relation `reach`. -/
inductive Task.Matches (reach : UInt32 → UInt32 → Prop) : Task → Task → Prop
  | same {task : Task} (h : task.targets = []) : Task.Matches reach task task
  | jump {t t' : UInt32} (h : reach t t') : Task.Matches reach (.jump t) (.jump t')
  | branch (test : BranchTest) {t t' : UInt32} (h : reach t t') :
      Task.Matches reach (.branch test t) (.branch test t')
  | switch {ts ts' : List UInt32} (h : List.Forall₂ reach ts ts') :
      Task.Matches reach (.switch ts) (.switch ts')

section

variable {reach : UInt32 → UInt32 → Prop}

private theorem matches_onTarget {operand operand' : Option Operand} {task : UInt32 → Task}
    (ht : ∀ t t', reach t t' → Task.Matches reach (task t) (task t'))
    (h : Option.Rel (Operand.Matches reach) operand operand') :
    Task.Matches reach (Task.onTarget operand task) (Task.onTarget operand' task) := by
  cases h with
  | none => exact .same rfl
  | @some operand _ h =>
    cases h with
    | same hs =>
      cases operand with
      | target t => cases hs
      | _ => exact .same rfl
    | target h => exact ht _ _ h
    | switch h => exact .same rfl

private theorem matches_operandTask (op : Opcode) {operand operand' : Option Operand}
    (h : Option.Rel (Operand.Matches reach) operand operand') :
    Task.Matches reach (op.operandTask operand) (op.operandTask operand') := by
  cases h with
  | none => exact .same (List.subset_nil.mp (targets_operandTask op none))
  | @some operand _ h =>
    cases h with
    | same hs =>
      have hsubset := targets_operandTask op (some operand)
      rw [Option.map_some, Option.getD_some, hs] at hsubset
      exact .same (List.subset_nil.mp hsubset)
    | target h =>
      unfold Opcode.operandTask
      split <;> first | exact .jump h | exact .same rfl
    | switch h =>
      unfold Opcode.operandTask
      split <;> first | exact .switch h | exact .same rfl

/-- The long form of a branch asks for the same as the short one. -/
theorem task_of_long? {op op' : Opcode} (hl : op.long? = some op') (offset offset' : UInt32)
    (operand : Option Operand) :
    Instruction.task ⟨op, offset, operand⟩ = Instruction.task ⟨op', offset', operand⟩ := by
  cases op <;> cases hl <;> rfl

/-- Instructions that match ask for tasks that match. -/
theorem Instruction.Matches.task {inst inst' : Instruction} (h : inst.Matches reach inst') :
    Task.Matches reach inst.task inst'.task := by
  -- an instruction is widened without a change of its task, so let the opcodes be the same
  have hsame : ∀ op offset offset' operand operand',
      Option.Rel (Operand.Matches reach) operand operand' →
      Task.Matches reach (Instruction.task ⟨op, offset, operand⟩)
        (Instruction.task ⟨op, offset', operand'⟩) := by
    intro op offset offset' operand operand' h
    unfold Instruction.task
    dsimp only
    cases hplain : op.plainTask? with
    | some task => exact .same (targets_plainTask? hplain)
    | none =>
      cases op.branchTest? with
      | some test => exact matches_onTarget (fun _ _ h => .branch test h) h
      | none => exact matches_operandTask op h
  cases h with
  | same op offset offset' h => exact hsame op offset offset' _ _ h
  | widened hl offset offset' h =>
    rw [task_of_long? hl offset offset']
    exact hsame _ offset' offset' _ _ (.some (.target h))

end

/-! ## Steps -/

/-- Execution goes on at the same place, or at offsets in the relation `reach`. -/
inductive Flow.Matches (reach : UInt32 → UInt32 → Prop) : Flow → Flow → Prop
  | same {flow : Flow} (h : ∀ target, flow ≠ .jump target) : Flow.Matches reach flow flow
  | jump {t t' : UInt32} (h : reach t t') : Flow.Matches reach (.jump t) (.jump t')

/-- The fault without the byte offset that it names. -/
def Fault.withoutOffset : Fault → Fault
  | .unsupported _ op => .unsupported 0 op
  | .missingOperand _ op => .missingOperand 0 op
  | .badBranchTarget _ => .badBranchTarget 0
  | fault => fault

/-- On one machine two steps do the same: they go on at flows that match, or raise faults that are
equal up to byte offsets. -/
inductive StepMatches (reach : UInt32 → UInt32 → Prop) : Outcome Flow → Outcome Flow → Prop
  | ok {flow flow' : Flow} (m : Machine) (h : flow.Matches reach flow') :
      StepMatches reach (.ok flow m) (.ok flow' m)
  | error {f g : Fault} (m : Machine) (h : f.withoutOffset = g.withoutOffset) :
      StepMatches reach (.error f m) (.error g m)

namespace Exec

variable {reach : UInt32 → UInt32 → Prop}

/-- A computation and then flows that match. -/
private theorem stepMatches_bind {α : Type} {f g : α → Exec Flow}
    (h : ∀ a m, StepMatches reach (f a m) (g a m)) (x : Exec α) (m : Machine) :
    StepMatches reach ((x >>= f) m) ((x >>= g) m) := by
  cases hx : x m with
  | ok a m' =>
    rw [bind_of_ok f hx, bind_of_ok g hx]
    exact h a m'
  | error fault m' =>
    rw [bind_of_error f hx, bind_of_error g hx]
    exact .error m' rfl

/-- A task without targets does the same, wherever its instruction stands. -/
private theorem stepMatches_of_task_eq {inst inst' : Instruction} (ht : inst.task = inst'.task)
    (hn : inst.task.targets = []) (ho : inst.opcode = inst'.opcode) (m : Machine) :
    StepMatches reach (step inst m) (step inst' m) := by
  by_cases hu : inst.task = .unsupported ∨ inst.task = .missingOperand
  · rcases hu with hu | hu
    · unfold step
      rw [← ht, hu, ho]
      exact .error m rfl
    · unfold step
      rw [← ht, hu, ho]
      exact .error m rfl
  · rw [not_or] at hu
    have hstep : step inst = step inst' := by
      unfold step
      rw [← ht]
      cases htask : inst.task <;> first | exact absurd htask hu.1 | exact absurd htask hu.2 | rfl
    rw [← hstep]
    cases hs : step inst m with
    | error fault m' => exact .error m' rfl
    | ok flow m' =>
      refine .ok m' (.same ?_)
      rintro target rfl
      have hmem := mem_task_targets_of_step hs
      rw [hn] at hmem
      cases hmem

/-- Steps of instructions that match do the same. -/
theorem stepMatches {inst inst' : Instruction} (h : inst.Matches reach inst') (m : Machine) :
    StepMatches reach (step inst m) (step inst' m) := by
  have htask := h.task
  have hopcode : inst.task.targets = [] → inst.opcode = inst'.opcode := by
    cases h with
    | same op offset offset' h => exact fun _ => rfl
    | @widened op op' hl offset offset' t t' h =>
      intro hn
      cases op <;> cases hl <;> cases hn
  generalize ht : inst.task = task, ht' : inst'.task = task' at htask
  cases htask with
  | same hn =>
    rw [← ht] at hn
    exact stepMatches_of_task_eq (ht.trans ht'.symm) hn (hopcode hn) m
  | jump hr =>
    unfold step
    rw [ht, ht']
    exact .ok m (.jump hr)
  | branch test hr =>
    unfold step
    rw [ht, ht']
    refine stepMatches_bind (fun taken m => ?_) (branches test) m
    cases taken with
    | false => exact .ok m (.same nofun)
    | true => exact .ok m (.jump hr)
  | @switch ts ts' hr =>
    unfold step
    rw [ht, ht']
    refine stepMatches_bind (fun v m => stepMatches_bind (fun index m => ?_) _ m) pop m
    split
    · exact .ok m (.same nofun)
    · have hchosen := rel_getElem? hr index.toInt.toNat
      generalize ts[index.toInt.toNat]? = chosen, ts'[index.toInt.toNat]? = chosen' at hchosen ⊢
      cases hchosen with
      | none => exact .ok m (.same nofun)
      | some h => exact .ok m (.jump h)

end Exec

end ManagedCode
