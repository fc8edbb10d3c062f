import ManagedCode.Heap.Basic

/-!
# Garbage collection

Objects that can be reached from given handles are marked, and every other object is removed. A
handle that names no object leads nowhere. The removed entries become free in ascending order, so
the last of them is used first.
-/

namespace ManagedCode.Heap

/-- Marking an entry that was not marked leaves fewer unmarked ones. -/
theorem count_false_set_lt {marks : Array Bool} {i : Nat} (h : i < marks.size)
    (unmarked : marks[i] = false) : (marks.set i true).count false < marks.count false := by
  have positive : 0 < marks.count false :=
    Array.count_pos_iff.2 (unmarked ▸ Array.getElem_mem h)
  have one_less : (marks.set i true).count false = marks.count false - 1 := by
    rw [Array.count_set]
    simp [unmarked]
  rw [one_less]
  exact Nat.sub_lt positive Nat.one_pos

/-- Marks the entries of the objects that can be reached from the pending handles. -/
def mark (heap : Heap) (marks : Array Bool) : (pending : List Handle) → Array Bool
  | [] => marks
  | handle :: pending =>
    match heap.get? handle with
    | none => mark heap marks pending
    | some object =>
      if h : handle.index.toNat < marks.size then
        if marks[handle.index.toNat] = false then
          mark heap (marks.set handle.index.toNat true) (object.references ++ pending)
        else mark heap marks pending
      else mark heap marks pending
termination_by pending => (marks.count false, pending.length)
decreasing_by
  · exact .right _ (Nat.lt_succ_self _)
  · exact .left _ _ (count_false_set_lt h ‹_›)
  · exact .right _ (Nat.lt_succ_self _)
  · exact .right _ (Nat.lt_succ_self _)

/-- The numbers of the entries that hold an unmarked object, in ascending order. -/
def garbage (heap : Heap) (marks : Array Bool) : List Nat :=
  (List.range heap.entries.size).filter fun index =>
    (heap.entries[index]?.any fun e => e.object.isSome) && !marks.getD index false

/-- Empties entries. -/
def sweep (heap : Heap) (garbage : List Nat) : Heap :=
  { heap with
    entries := garbage.foldl (fun entries index => entries.modify index Entry.clear) heap.entries
    free := garbage.reverse ++ heap.free
    live := heap.live - garbage.length }

/-- Removes every object that cannot be reached from `roots`, and says how many these were. -/
def collect (heap : Heap) (roots : List Handle) : Nat × Heap :=
  let marks := heap.mark (Array.replicate heap.entries.size false) roots
  let garbage := heap.garbage marks
  (garbage.length, heap.sweep garbage)

end ManagedCode.Heap
