import Mathlib.Data.List.MinMax
import Mathlib.Order.Nat
import ManagedCode.Proofs.Catalog.Bodies
import ManagedCode.Proofs.Execution.Jumps

/-!
# Programs without loops

A body whose branches all lead forward evaluates each of its instructions at most once, and the
limit on nested calls bounds how deep calls go. So every call of such a program ends, recursive or
not, within a number of steps that the length of the bodies and the limit determine. A step enters a
call or evaluates an instruction.
-/

namespace ManagedCode

namespace Machine

/-! ## Counting steps -/

/-- The work with enough fuel for a number of steps. A body needs fuel even to find that it was
passed. -/
def run (n : Nat) : (work : Work) → Machine → Option (Outcome work.Result)
  | .call id arguments, m => m.call n id arguments
  | .body body position, m => m.runBody (n + 1) body position

end Machine

/-! ## Bodies that lead forward -/

namespace Machine

/-- Executing a method does not change how deep calls may nest. -/
theorem maxDepth_execute {fuel : Nat} {id : MethodId} {m : Machine}
    {outcome : Outcome (Option Value)} (h : m.execute fuel id = some outcome) :
    outcome.machine.calls.maxDepth = m.calls.maxDepth :=
  (keepsLimit_execute h).1

/-- Starting a program does not change how deep calls may nest. -/
theorem maxDepth_start {fuel : Nat} {texts : List String} {m : Machine}
    {outcome : Outcome (Option Value)} (h : m.start fuel texts = some outcome) :
    outcome.machine.calls.maxDepth = m.calls.maxDepth := by
  unfold start at h
  split at h
  · cases h
    rfl
  · rename_i id _
    have hprepared := ((composed_startArguments id texts).sameCallers m).maxDepth
    split at h
    · rename_i hp
      rw [hp] at hprepared
      cases h
      exact hprepared
    · rename_i hp
      rw [hp] at hprepared
      exact (ends_of_call h).sameCallers.maxDepth.trans hprepared

/-- Loading a module does not change how deep calls may nest. -/
theorem maxDepth_load (image : Image) (m : Machine) :
    (Outcome.machine (m.load image)).calls.maxDepth = m.calls.maxDepth := by
  unfold load loadModule
  split <;> rfl

end Machine

/-! ## Machines of a host -/

open Machine

/-- No action changes the limit on nested calls. -/
theorem Action.maxDepth_run {action : Action} {fuel : Nat} {m : Machine}
    {outcome : Outcome (List Value)} (h : action.run fuel m = some outcome) :
    outcome.machine.calls.maxDepth = m.calls.maxDepth := by
  have hcomposed : ∀ {α : Type} {x : Exec α} {held : List Value} {values : α → List Value},
      Exec.Composed held x values → (given values (x m)).machine.calls.maxDepth =
        m.calls.maxDepth := by
    intro α x held values hx
    rw [machine_given]
    exact (hx.sameCallers m).maxDepth
  cases action with
  | load image =>
    cases h
    rw [machine_given]
    exact maxDepth_load image m
  | start texts =>
    obtain ⟨ended, he, rfl⟩ := Option.map_eq_some_iff.mp h
    rw [machine_given]
    exact maxDepth_start he
  | call id arguments =>
    obtain ⟨ended, he, rfl⟩ := Option.map_eq_some_iff.mp h
    rw [machine_given]
    exact (ends_of_call he).sameCallers.maxDepth
  | execute id =>
    obtain ⟨ended, he, rfl⟩ := Option.map_eq_some_iff.mp h
    rw [machine_given]
    exact maxDepth_execute he
  | collectGarbage =>
    cases h
    rfl
  | instantiate type =>
    cases h
    have hx : Exec.Composed [] (Exec.instantiate type) fun handle => [.ref handle] :=
      Exec.composed_instantiate type
    exact hcomposed hx
  | allocString text =>
    cases h
    have hx : Exec.Composed [] (Exec.allocString text) fun v => [v] :=
      Exec.composed_allocString text
    exact hcomposed hx
  | allocArray elements =>
    cases h
    exact hcomposed (Exec.composed_allocArray fun _ hm => hm)
  | allocList items =>
    cases h
    exact hcomposed (Exec.composed_allocList fun _ hm => hm)
  | setField handle name value =>
    cases h
    have hx : Exec.Composed [.ref handle, value] (Exec.setField handle name value) noValues :=
      Exec.composed_setField name List.mem_cons_self (.of_subset (by simp))
    exact hcomposed hx

/-- The limit on nested calls is that of the options. -/
theorem Attainable.maxDepth {options : Options} {files : Files} {m : Machine}
    (h : Attainable options files m) : m.calls.maxDepth = options.maxCallDepth := by
  induction h with
  | new => rfl
  | act action fuel _ hr ih => exact (Action.maxDepth_run hr).trans ih
  | edit handle f _ ih => exact ih
  | write text _ ih => exact ih
  | setFiles others _ ih => exact ih

end ManagedCode
