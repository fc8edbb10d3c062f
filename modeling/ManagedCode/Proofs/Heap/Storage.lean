import Mathlib.Algebra.Group.Nat.Defs
import ManagedCode.Heap.Basic

/-!
# The entries of a heap

A heap keeps the number of its live objects and the list of its empty entries beside the entries
themselves. `WellFormed` says that the three agree. Under it the heap is a map from handles to
objects: storing an object adds one handle and keeps all others, and changing an object changes what
one handle names.
-/

namespace ManagedCode

namespace Heap

/-- A handle is live when it names an object. -/
def Live (heap : Heap) (handle : Handle) : Prop := (heap.get? handle).isSome

instance (heap : Heap) (handle : Handle) : Decidable (heap.Live handle) :=
  inferInstanceAs (Decidable (_ = true))

/-- The entries, the free list and the count of live objects agree, and no more entries were ever
made than the heap may hold objects. -/
structure WellFormed (heap : Heap) : Prop where
  /-- No entry is free twice. -/
  free_nodup : heap.free.Nodup
  /-- Exactly the empty entries are free. -/
  mem_free : ∀ i, i ∈ heap.free ↔ ∃ e, heap.entries[i]? = some e ∧ e.object = none
  /-- Every entry is either live or free. -/
  live_add_free : heap.live + heap.free.length = heap.entries.size
  /-- New entries are made only while all others are in use. -/
  size_le : heap.entries.size ≤ heap.capacity

/-- A heap without entries is well-formed. -/
theorem wellFormed_empty (capacity : Nat) : (empty capacity).WellFormed where
  free_nodup := List.nodup_nil
  mem_free := by simp [empty]
  live_add_free := rfl
  size_le := Nat.zero_le _

/-! ## Looking a handle up -/

/-- A handle names an object exactly when its entry has its generation and holds that object. -/
theorem get?_eq_some_iff {heap : Heap} {handle : Handle} {object : Object} :
    heap.get? handle = some object ↔
      heap.entries[handle.index.toNat]? = some ⟨handle.generation, some object⟩ := by
  simp only [get?, entry?, Option.bind_eq_some_iff, Option.filter_eq_some_iff, beq_iff_eq]
  constructor
  · rintro ⟨⟨generation, stored⟩, ⟨he, hg⟩, ho⟩
    simp only at hg ho
    rw [he, hg, ho]
  · intro he
    exact ⟨_, ⟨he, rfl⟩, rfl⟩

/-- A handle is live exactly if it leads to an object. -/
theorem live_iff {heap : Heap} {handle : Handle} :
    heap.Live handle ↔ ∃ object, heap.get? handle = some object :=
  Option.isSome_iff_exists

/-- A handle that leads to an object is live. -/
theorem live_of_get? {heap : Heap} {handle : Handle} {object : Object}
    (h : heap.get? handle = some object) : heap.Live handle :=
  live_iff.mpr ⟨object, h⟩

/-- An empty entry makes every handle to it stale. -/
theorem get?_eq_none_of_empty {heap : Heap} {handle : Handle} {e : Entry}
    (he : heap.entries[handle.index.toNat]? = some e) (ho : e.object = none) :
    heap.get? handle = none := by
  apply Option.eq_none_iff_forall_not_mem.mpr
  intro object hm
  rw [Option.mem_def, get?_eq_some_iff, he] at hm
  simp only [Option.some.injEq] at hm
  simp [hm] at ho

/-- No handle behind the last entry is live. -/
theorem get?_eq_none_of_size_le {heap : Heap} {handle : Handle}
    (h : heap.entries.size ≤ handle.index.toNat) : heap.get? handle = none := by
  apply Option.eq_none_iff_forall_not_mem.mpr
  intro object hm
  rw [Option.mem_def, get?_eq_some_iff, Array.getElem?_eq_none h] at hm
  exact absurd hm (by simp)

/-! ## Storing an object -/

/-- A heap that is not full has fewer objects than its capacity. -/
theorem WellFormed.live_lt_of_room {heap : Heap} (hr : heap.isFull = false) :
    heap.live < heap.capacity := by
  simpa [isFull] using hr

/-- With no entry free, the next number is still below the capacity. -/
theorem WellFormed.size_lt {heap : Heap} (hw : heap.WellFormed) (hf : heap.free = [])
    (hr : heap.isFull = false) : heap.entries.size < heap.capacity := by
  have hl := WellFormed.live_lt_of_room hr
  have hc := hw.live_add_free
  rw [hf, List.length_nil] at hc
  omega

/-- A free number is that of an existing entry without an object. -/
theorem WellFormed.entry_of_mem_free {heap : Heap} (hw : heap.WellFormed) {i : Nat}
    (hi : i ∈ heap.free) :
    ∃ hs : i < heap.entries.size, heap.entries[i].object = none := by
  obtain ⟨e, he, ho⟩ := (hw.mem_free i).mp hi
  obtain ⟨hs, rfl⟩ := Array.getElem?_eq_some_iff.mp he
  exact ⟨hs, ho⟩

private theorem toNat_toUInt32 {i n : Nat} (hi : i < n) (hn : n ≤ 2 ^ 32) :
    i.toUInt32.toNat = i := by
  rw [Nat.toUInt32_eq, UInt32.toNat_ofNat_of_lt']
  exact Nat.lt_of_lt_of_le hi hn

/-- Storing writes one entry, which is the one that the new handle names. -/
theorem entries_add {heap : Heap} (hw : heap.WellFormed) (hc : heap.capacity ≤ 2 ^ 32)
    (hr : heap.isFull = false) (object : Object) (j : Nat) :
    (heap.add object).2.entries[j]? =
      if j = (heap.add object).1.index.toNat
      then some ⟨(heap.add object).1.generation, some object⟩ else heap.entries[j]? := by
  cases hf : heap.free with
  | nil =>
    have hs := hw.size_lt hf hr
    simp only [add, hf, Array.getElem?_push, toNat_toUInt32 hs hc]
  | cons i rest =>
    obtain ⟨hs, _⟩ := hw.entry_of_mem_free (hf ▸ List.mem_cons_self)
    have hsize := hw.size_le
    simp only [add, hf, Array.getElem?_modify, toNat_toUInt32 hs (Nat.le_trans hsize hc),
      Array.getElem?_eq_getElem hs, Option.map_some, Option.getD_some]
    by_cases hj : i = j
    · subst hj
      simp [Array.getElem?_eq_getElem hs]
    · simp [hj, Ne.symm hj]

/-- The entry of a new handle held no object before. -/
theorem entry_before_add {heap : Heap} (hw : heap.WellFormed) (hc : heap.capacity ≤ 2 ^ 32)
    (hr : heap.isFull = false) (object : Object) {handle : Handle}
    (hi : handle.index = (heap.add object).1.index) : heap.get? handle = none := by
  cases hf : heap.free with
  | nil =>
    have hs := hw.size_lt hf hr
    apply get?_eq_none_of_size_le
    rw [hi]
    simp only [add, hf, toNat_toUInt32 hs hc, Nat.le_refl]
  | cons i rest =>
    obtain ⟨hs, ho⟩ := hw.entry_of_mem_free (hf ▸ List.mem_cons_self)
    have hsize := hw.size_le
    have hn : handle.index.toNat = i := by
      rw [hi]
      simp only [add, hf, toNat_toUInt32 hs (Nat.le_trans hsize hc)]
    exact get?_eq_none_of_empty (by rw [hn, Array.getElem?_eq_getElem hs]) ho

/-- Storing adds exactly one handle to the map. -/
theorem get?_add {heap : Heap} (hw : heap.WellFormed) (hc : heap.capacity ≤ 2 ^ 32)
    (hr : heap.isFull = false) (object : Object) (handle : Handle) :
    (heap.add object).2.get? handle =
      if handle = (heap.add object).1 then some object else heap.get? handle := by
  apply Option.ext
  intro found
  rw [get?_eq_some_iff, entries_add hw hc hr]
  by_cases hi : handle.index = (heap.add object).1.index
  · rw [if_pos (congrArg UInt32.toNat hi), entry_before_add hw hc hr object hi]
    by_cases hg : handle.generation = (heap.add object).1.generation
    · have he : handle = (heap.add object).1 := by
        cases handle
        simp_all
      simp [he]
    · have he : handle ≠ (heap.add object).1 := fun h => hg (congrArg Handle.generation h)
      simp [he, Ne.symm hg]
  · have hn : handle.index.toNat ≠ (heap.add object).1.index.toNat :=
      fun h => hi (UInt32.toNat_inj.mp h)
    have he : handle ≠ (heap.add object).1 := fun h => hi (congrArg Handle.index h)
    rw [if_neg hn, if_neg he, get?_eq_some_iff]

/-- A new handle was not live. -/
theorem not_live_add {heap : Heap} (hw : heap.WellFormed) (hc : heap.capacity ≤ 2 ^ 32)
    (hr : heap.isFull = false) (object : Object) : ¬ heap.Live (heap.add object).1 := by
  simp [Live, entry_before_add hw hc hr object rfl]

/-- The new handle is live, and otherwise the same handles as before. -/
theorem live_add {heap : Heap} (hw : heap.WellFormed) (hc : heap.capacity ≤ 2 ^ 32)
    (hr : heap.isFull = false) (object : Object) (handle : Handle) :
    (heap.add object).2.Live handle ↔ handle = (heap.add object).1 ∨ heap.Live handle := by
  rw [Live, get?_add hw hc hr]
  by_cases he : handle = (heap.add object).1
  · simp [he]
  · simp [he, Live]

/-- Storing an object does not change the capacity. -/
@[simp] theorem capacity_add (heap : Heap) (object : Object) :
    (heap.add object).2.capacity = heap.capacity := by
  unfold add
  split <;> rfl

/-- Storing an object is counted. -/
@[simp] theorem live_field_add (heap : Heap) (object : Object) :
    (heap.add object).2.live = heap.live + 1 := by
  unfold add
  split <;> rfl

/-- A heap stays well-formed when an object is stored. -/
theorem WellFormed.add {heap : Heap} (hw : heap.WellFormed) (hr : heap.isFull = false)
    (object : Object) : (heap.add object).2.WellFormed := by
  have hcount := hw.live_add_free
  cases hf : heap.free with
  | nil =>
    have hs := hw.size_lt hf hr
    have hfull (i : Nat) : ¬ ∃ e, heap.entries[i]? = some e ∧ e.object = none := by
      rw [← hw.mem_free, hf]
      exact List.not_mem_nil
    simp only [Heap.add, hf]
    refine ⟨List.nodup_nil, fun i => ?_, ?_, ?_⟩
    · simp only [List.not_mem_nil, false_iff]
      rintro ⟨e, he, ho⟩
      rw [Array.getElem?_push] at he
      split at he
      · cases he
        exact absurd ho (by simp)
      · exact hfull i ⟨e, he, ho⟩
    · simp only [hf, List.length_nil] at hcount
      simp only [List.length_nil, Array.size_push]
      omega
    · rw [Array.size_push]
      exact hs
  | cons i rest =>
    obtain ⟨hs, _⟩ := hw.entry_of_mem_free (hf ▸ List.mem_cons_self)
    have hn := hw.free_nodup
    rw [hf, List.nodup_cons] at hn
    simp only [Heap.add, hf]
    refine ⟨hn.2, fun j => ?_, ?_, ?_⟩
    · have hold := hw.mem_free j
      rw [hf, List.mem_cons] at hold
      simp only [Array.getElem?_modify]
      by_cases hij : i = j
      · subst hij
        simp [hn.1, Array.getElem?_eq_getElem hs]
      · simpa [hij, Ne.symm hij] using hold
    · rw [hf, List.length_cons] at hcount
      simp only [Array.size_modify]
      omega
    · simpa only [Array.size_modify] using hw.size_le

/-! ## Changing an object -/

/-- Changing an object changes what its handle names, and nothing else. -/
theorem get?_modify (heap : Heap) (handle other : Handle) (f : Object → Object) :
    (heap.modify handle f).get? other =
      if other = handle then (heap.get? handle).map f else heap.get? other := by
  simp only [get?, entry?, modify, Array.getElem?_modify]
  by_cases hi : handle.index.toNat = other.index.toNat
  · rw [if_pos hi, ← hi]
    cases heap.entries[handle.index.toNat]? with
    | none => simp
    | some e =>
      by_cases he : other = handle
      · subst he
        by_cases hg : e.generation = other.generation <;> simp [Option.filter, hg]
      · have hne : other.generation ≠ handle.generation := by
          intro hg
          apply he
          cases other
          cases handle
          simp_all [UInt32.toNat_inj]
        by_cases hg : e.generation = handle.generation
        · simp [Option.filter, he, hg, Ne.symm hne]
        · simp [Option.filter, he, hg]
  · have he : other ≠ handle := fun h => hi (by rw [h])
    rw [if_neg hi, if_neg he]

/-- Changing an object does not change which handles are live. -/
@[simp] theorem live_modify (heap : Heap) (handle other : Handle) (f : Object → Object) :
    (heap.modify handle f).Live other ↔ heap.Live other := by
  rw [Live, get?_modify]
  by_cases he : other = handle <;> simp [he, Live]

/-- Changing an object does not change the capacity. -/
@[simp] theorem capacity_modify (heap : Heap) (handle : Handle) (f : Object → Object) :
    (heap.modify handle f).capacity = heap.capacity := rfl

/-- A heap stays well-formed when an object is changed. -/
theorem WellFormed.modify {heap : Heap} (hw : heap.WellFormed) (handle : Handle)
    (f : Object → Object) : (heap.modify handle f).WellFormed where
  free_nodup := hw.free_nodup
  mem_free i := by
    rw [show (heap.modify handle f).free = heap.free from rfl, hw.mem_free i]
    simp only [Heap.modify, Array.getElem?_modify]
    by_cases hi : handle.index.toNat = i
    · rw [if_pos hi]
      cases heap.entries[i]? with
      | none => simp
      | some e =>
        by_cases hg : e.generation = handle.generation <;> simp [hg]
    · rw [if_neg hi]
  live_add_free := by simpa [Heap.modify] using hw.live_add_free
  size_le := by simpa [Heap.modify] using hw.size_le

end Heap

end ManagedCode
