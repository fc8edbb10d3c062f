import ManagedCode.Proofs.Heap.Objects

/-!
# What storing adds

Storing an object adds it to the live objects and takes none away. Its handle named nothing before,
names the object afterwards, and every other handle names what it did, as long as 32 bits can number
the entries. How many objects the heap may hold does not matter for that.
-/

namespace ManagedCode

namespace Heap

/-- So many more objects can be numbered with 32 bits. -/
structure Addressable (heap : Heap) (count : Nat) : Prop where
  entries : heap.entries.size ≤ 2 ^ 32
  live : heap.live + count ≤ 2 ^ 32

/-- Room for more objects is room for fewer. -/
theorem Addressable.mono {heap : Heap} {count more : Nat} (h : heap.Addressable more)
    (hle : count ≤ more) : heap.Addressable count :=
  ⟨h.entries, Nat.le_trans (Nat.add_le_add_left hle _) h.live⟩

/-- An object takes up the room of one. -/
theorem Addressable.add {heap : Heap} {count : Nat} (h : heap.Addressable (count + 1))
    (hw : heap.WellFormed) (object : Object) : (heap.add object).2.Addressable count := by
  obtain ⟨hentries, hlive⟩ := h
  refine ⟨?_, by rw [live_field_add]; omega⟩
  have hcount := hw.live_add_free
  unfold Heap.add
  cases hf : heap.free with
  | nil =>
    rw [hf, List.length_nil] at hcount
    simp only [Array.size_push]
    omega
  | cons i free => simpa only [Array.size_modify] using hentries

/-! ## The handle of a stored object -/

private theorem add_capacity (heap : Heap) (capacity : Nat) (object : Object) :
    ({ heap with capacity } : Heap).add object =
      ((heap.add object).1, { (heap.add object).2 with capacity }) := by
  obtain ⟨entries, free, limit, live⟩ := heap
  cases free <;> rfl

private theorem wellFormed_capacity {heap : Heap} (hw : heap.WellFormed) {capacity : Nat}
    (hc : heap.entries.size ≤ capacity) : ({ heap with capacity } : Heap).WellFormed :=
  ⟨hw.free_nodup, hw.mem_free, hw.live_add_free, hc⟩

/-- Storing adds one handle to the map and keeps all others. -/
theorem get?_add_of_addressable {heap : Heap} (hw : heap.WellFormed) (ha : heap.Addressable 1)
    (object : Object) (handle : Handle) :
    (heap.add object).2.get? handle =
      if handle = (heap.add object).1 then some object else heap.get? handle := by
  have hroom : ({ heap with capacity := 2 ^ 32 } : Heap).isFull = false := by
    have hlive := ha.live
    simp only [isFull, decide_eq_false_iff_not]
    omega
  have hadded := get?_add (wellFormed_capacity hw ha.entries) (Nat.le_refl _) hroom object handle
  rwa [add_capacity] at hadded

/-- The handle of a stored object named nothing before. -/
theorem get?_fst_add {heap : Heap} (hw : heap.WellFormed) (ha : heap.Addressable 1)
    (object : Object) : heap.get? (heap.add object).1 = none := by
  have hroom : ({ heap with capacity := 2 ^ 32 } : Heap).isFull = false := by
    have hlive := ha.live
    simp only [isFull, decide_eq_false_iff_not]
    omega
  have hindex : (heap.add object).1.index =
      (({ heap with capacity := 2 ^ 32 } : Heap).add object).1.index :=
    congrArg (·.1.index) (add_capacity heap (2 ^ 32) object).symm
  exact entry_before_add (wellFormed_capacity hw ha.entries) (Nat.le_refl _) hroom object hindex

/-! ## The live objects -/

/-- Storing adds the object to the live ones and takes none away. -/
theorem objects_add_perm {heap : Heap} (hw : heap.WellFormed) (object : Object) :
    (heap.add object).2.objects.Perm (object :: heap.objects) := by
  cases hf : heap.free with
  | nil =>
    have hadded : (heap.add object).2.objects = heap.objects ++ [object] := by
      simp [Heap.add, hf, Heap.objects]
    rw [hadded]
    exact List.perm_append_singleton _ _
  | cons i free =>
    obtain ⟨hlt, hempty⟩ := hw.entry_of_mem_free (hf ▸ List.mem_cons_self)
    have hlt' : i < heap.entries.toList.length := by simpa using hlt
    have hsplit : heap.entries.toList =
        heap.entries.toList.take i ++ heap.entries[i] :: heap.entries.toList.drop (i + 1) := by
      rw [← Array.getElem_toList hlt, ← List.drop_eq_getElem_cons hlt', List.take_append_drop]
    have hbefore := congrArg (List.filterMap Entry.object) hsplit
    rw [List.filterMap_append, List.filterMap_cons, hempty] at hbefore
    have hadded : (heap.add object).2.objects =
        (heap.entries.toList.take i).filterMap Entry.object ++
          object :: (heap.entries.toList.drop (i + 1)).filterMap Entry.object := by
      simp [Heap.add, hf, Heap.objects, List.modify_eq_take_cons_drop hlt']
    rw [hadded, Heap.objects, hbefore]
    exact List.perm_middle

/-- The second heap is the first one with an object more, which the handle names. -/
structure Gains (before : Heap) (handle : Handle) (object : Object) (after : Heap) : Prop where
  /-- Every live object stays what it is, under its handle. -/
  kept : ∀ other found, before.get? other = some found → after.get? other = some found
  /-- There is exactly one live object more. -/
  objects : after.objects.Perm (object :: before.objects)
  /-- The handle is new, and it is the only one that names something else than before. -/
  named : before.Addressable 1 → before.get? handle = none ∧ after.get? handle = some object ∧
    ∀ other, other ≠ handle → after.get? other = before.get? other

/-- Storing an object gains it and nothing else. -/
theorem WellFormed.gains_add {heap : Heap} (hw : heap.WellFormed) (object : Object) :
    heap.Gains (heap.add object).1 object (heap.add object).2 where
  kept _ _ h := get?_add_of_get? hw h
  objects := objects_add_perm hw object
  named ha := by
    refine ⟨get?_fst_add hw ha object, ?_, fun other hne => ?_⟩
    · rw [get?_add_of_addressable hw ha, if_pos rfl]
    · rw [get?_add_of_addressable hw ha, if_neg hne]

/-! ## Several objects -/

/-- The second heap has so many objects more than the first one, and keeps all that this has. -/
structure Grows (before : Heap) (count : Nat) (after : Heap) : Prop where
  wellFormed : after.WellFormed
  live : after.live = before.live + count
  capacity : after.capacity = before.capacity
  kept : ∀ handle object, before.get? handle = some object → after.get? handle = some object
  addressable : ∀ more, before.Addressable (count + more) → after.Addressable more

variable {heap middle after : Heap}

/-- A heap grows by nothing where nothing happens. -/
theorem WellFormed.grows_zero (hw : heap.WellFormed) : heap.Grows 0 heap where
  wellFormed := hw
  live := rfl
  capacity := rfl
  kept _ _ h := h
  addressable more h := (Nat.zero_add more) ▸ h

/-- Storing an object makes a heap grow by one. -/
theorem WellFormed.grows_add (hw : heap.WellFormed) (hr : heap.isFull = false) (object : Object) :
    heap.Grows 1 (heap.add object).2 where
  wellFormed := hw.add hr object
  live := live_field_add heap object
  capacity := capacity_add heap object
  kept _ _ h := get?_add_of_get? hw h
  addressable more h := (Nat.add_comm 1 more ▸ h).add hw object

/-- A heap that grows twice grows by both numbers. -/
theorem Grows.trans {first second : Nat} (h : heap.Grows first middle)
    (h' : middle.Grows second after) : heap.Grows (first + second) after where
  wellFormed := h'.wellFormed
  live := by rw [h'.live, h.live, Nat.add_assoc]
  capacity := h'.capacity.trans h.capacity
  kept handle object hobject := h'.kept handle object (h.kept handle object hobject)
  addressable more hmore := h'.addressable more (h.addressable _ (Nat.add_assoc first _ _ ▸ hmore))

end Heap

end ManagedCode
