import ManagedCode.Heap.Collection
import ManagedCode.Proofs.Heap.Storage

/-!
# What a collection keeps

Marking reaches every live handle it starts from and, from a marked object, every live handle that
the object holds. Sweeping then empties exactly the entries that hold an unmarked object. So a
collection leaves the roots live, takes no object away that a surviving object refers to, and
changes no object that it keeps.
-/

namespace ManagedCode

namespace Heap

/-- Whether the entry of a number is marked. -/
def Marked (marks : Array Bool) (i : Nat) : Prop := marks[i]? = some true

/-- Two live handles to one entry are the same. -/
theorem eq_of_index_eq {heap : Heap} {a b : Handle} (ha : heap.Live a) (hb : heap.Live b)
    (hi : a.index.toNat = b.index.toNat) : a = b := by
  obtain ⟨oa, ha⟩ := live_iff.mp ha
  obtain ⟨ob, hb⟩ := live_iff.mp hb
  rw [get?_eq_some_iff] at ha hb
  rw [hi, hb, Option.some.injEq, Entry.mk.injEq] at ha
  cases a
  cases b
  simp_all [UInt32.toNat_inj]

/-- A live handle is that of an entry. -/
theorem index_lt_of_live {heap : Heap} {handle : Handle} (h : heap.Live handle) :
    handle.index.toNat < heap.entries.size := by
  obtain ⟨object, ho⟩ := live_iff.mp h
  obtain ⟨hs, _⟩ := Array.getElem?_eq_some_iff.mp (get?_eq_some_iff.mp ho)
  exact hs

/-! ## Marking -/

/-- A mark stays when another one is set. -/
theorem Marked.set {marks : Array Bool} {i j : Nat} (hs : i < marks.size) (h : Marked marks j) :
    Marked (marks.set i true) j := by
  unfold Marked at h ⊢
  by_cases hij : i = j <;> simp_all

/-- A mark that is set is there. -/
theorem marked_set_self {marks : Array Bool} {i : Nat} (hs : i < marks.size) :
    Marked (marks.set i true) i := by
  simp [Marked]

/-- A mark is never taken back. -/
theorem Marked.mark {heap : Heap} {marks : Array Bool} {i : Nat} (h : Marked marks i)
    (pending : List Handle) : Marked (heap.mark marks pending) i := by
  fun_induction Heap.mark heap marks pending with
  | case1 => exact h
  | case2 marks handle pending hg ih => exact ih h
  | case3 marks handle pending object hg hs hm ih => exact ih (h.set hs)
  | case4 marks handle pending object hg hs hm ih => exact ih h
  | case5 marks handle pending object hg hs ih => exact ih h

/-- Every live handle that a marked object holds is marked or still pending. -/
def Traced (heap : Heap) (marks : Array Bool) (pending : List Handle) : Prop :=
  ∀ handle object, heap.get? handle = some object → Marked marks handle.index.toNat →
    ∀ r ∈ object.references, heap.Live r → Marked marks r.index.toNat ∨ r ∈ pending

/-- A pending handle may be dropped when it is stale or its entry is marked. -/
private theorem Traced.drop {heap : Heap} {marks : Array Bool} {handle : Handle}
    {pending : List Handle} (ht : heap.Traced marks (handle :: pending))
    (hd : heap.Live handle → Marked marks handle.index.toNat) : heap.Traced marks pending := by
  intro h object ho hm r hr hl
  rcases ht h object ho hm r hr hl with hmr | hmem
  · exact Or.inl hmr
  · rcases List.mem_cons.mp hmem with rfl | hp
    · exact Or.inl (hd hl)
    · exact Or.inr hp

/-- A pending handle may be traded for a mark when what its object holds becomes pending. -/
private theorem Traced.visit {heap : Heap} {marks : Array Bool} {handle : Handle}
    {pending : List Handle} {object : Object} (ht : heap.Traced marks (handle :: pending))
    (hg : heap.get? handle = some object) (hs : handle.index.toNat < marks.size) :
    heap.Traced (marks.set handle.index.toNat true) (object.references ++ pending) := by
  intro h found ho hm r hr hl
  by_cases hi : handle.index.toNat = h.index.toNat
  · have he := eq_of_index_eq (live_of_get? hg) (live_of_get? ho) hi
    subst he
    rw [hg, Option.some.injEq] at ho
    exact Or.inr (List.mem_append.mpr (Or.inl (ho ▸ hr)))
  · have hm' : Marked marks h.index.toNat := by
      simpa [Marked, Array.getElem?_set, hi] using hm
    rcases ht h found ho hm' r hr hl with hmr | hmem
    · exact Or.inl (hmr.set hs)
    · rcases List.mem_cons.mp hmem with rfl | hp
      · exact Or.inl (marked_set_self hs)
      · exact Or.inr (List.mem_append.mpr (Or.inr hp))

/-- Marking leaves nothing pending. -/
theorem Traced.mark {heap : Heap} {marks : Array Bool} {pending : List Handle}
    (hs : marks.size = heap.entries.size) (ht : heap.Traced marks pending) :
    heap.Traced (heap.mark marks pending) [] := by
  fun_induction Heap.mark heap marks pending with
  | case1 => exact ht
  | case2 marks handle pending hg ih =>
    exact ih hs (ht.drop fun hl => by simp [Live, hg] at hl)
  | case3 marks handle pending object hg hi hm ih =>
    exact ih (by rw [Array.size_set, hs]) (ht.visit hg hi)
  | case4 marks handle pending object hg hi hm ih =>
    refine ih hs (ht.drop fun _ => ?_)
    rw [Marked, Array.getElem?_eq_getElem hi]
    simpa using hm
  | case5 marks handle pending object hg hi ih =>
    exact absurd (hs ▸ index_lt_of_live (live_of_get? hg)) hi

/-- Every live handle that marking starts from is marked. -/
theorem marked_of_mem {heap : Heap} {marks : Array Bool} {pending : List Handle}
    (hs : marks.size = heap.entries.size) {root : Handle} (hr : root ∈ pending)
    (hl : heap.Live root) : Marked (heap.mark marks pending) root.index.toNat := by
  fun_induction Heap.mark heap marks pending with
  | case1 => exact absurd hr List.not_mem_nil
  | case2 marks handle pending hg ih =>
    rcases List.mem_cons.mp hr with rfl | hp
    · simp [Live, hg] at hl
    · exact ih hs hp
  | case3 marks handle pending object hg hi hm ih =>
    rcases List.mem_cons.mp hr with rfl | hp
    · exact (marked_set_self hi).mark _
    · exact ih (by rw [Array.size_set, hs]) (List.mem_append.mpr (Or.inr hp))
  | case4 marks handle pending object hg hi hm ih =>
    rcases List.mem_cons.mp hr with rfl | hp
    · apply Marked.mark
      rw [Marked, Array.getElem?_eq_getElem hi]
      simpa using hm
    · exact ih hs hp
  | case5 marks handle pending object hg hi ih =>
    exact absurd (hs ▸ index_lt_of_live (live_of_get? hg)) hi

/-! ## Sweeping -/

/-- Garbage is the numbers of the entries that hold an unmarked object. -/
theorem mem_garbage {heap : Heap} {marks : Array Bool} {i : Nat} :
    i ∈ heap.garbage marks ↔
      (∃ e, heap.entries[i]? = some e ∧ e.object.isSome) ∧ ¬ Marked marks i := by
  simp only [garbage, List.mem_filter, List.mem_range, Bool.and_eq_true, Option.any_eq_true,
    Bool.not_eq_true', Array.getD_eq_getD_getElem?, Marked]
  constructor
  · rintro ⟨_, ⟨e, he, ho⟩, hm⟩
    exact ⟨⟨e, he, ho⟩, fun h => by simp [h] at hm⟩
  · rintro ⟨⟨e, he, ho⟩, hm⟩
    obtain ⟨hs, _⟩ := Array.getElem?_eq_some_iff.mp he
    refine ⟨hs, ⟨e, he, ho⟩, ?_⟩
    cases hmi : marks[i]? with
    | none => rfl
    | some b => cases b <;> simp_all

/-- No entry is garbage twice. -/
theorem nodup_garbage (heap : Heap) (marks : Array Bool) : (heap.garbage marks).Nodup :=
  List.nodup_range.filter _

private theorem getElem?_clear {garbage : List Nat} (hn : garbage.Nodup) (entries : Array Entry)
    (j : Nat) :
    (garbage.foldl (fun entries index => entries.modify index Entry.clear) entries)[j]? =
      if j ∈ garbage then entries[j]?.map Entry.clear else entries[j]? := by
  induction garbage generalizing entries with
  | nil => simp
  | cons i rest ih =>
    rw [List.nodup_cons] at hn
    rw [List.foldl_cons, ih hn.2, Array.getElem?_modify]
    by_cases hij : i = j
    · subst hij
      simp [hn.1]
    · simp [hij, Ne.symm hij]

/-- Sweeping clears the entries that are garbage and leaves the others. -/
theorem entries_sweep {heap : Heap} {garbage : List Nat} (hn : garbage.Nodup) (j : Nat) :
    (heap.sweep garbage).entries[j]? =
      if j ∈ garbage then heap.entries[j]?.map Entry.clear else heap.entries[j]? :=
  getElem?_clear hn heap.entries j

/-- Sweeping makes the handles to the swept entries stale and keeps all others. -/
theorem get?_sweep {heap : Heap} {garbage : List Nat} (hn : garbage.Nodup) (handle : Handle) :
    (heap.sweep garbage).get? handle =
      if handle.index.toNat ∈ garbage then none else heap.get? handle := by
  apply Option.ext
  intro object
  rw [get?_eq_some_iff, entries_sweep hn]
  by_cases hm : handle.index.toNat ∈ garbage
  · simp [hm, Entry.clear]
  · rw [if_neg hm, if_neg hm, get?_eq_some_iff]

private theorem size_clear (garbage : List Nat) (entries : Array Entry) :
    (garbage.foldl (fun entries index => entries.modify index Entry.clear) entries).size =
      entries.size := by
  induction garbage generalizing entries with
  | nil => rfl
  | cons i rest ih => rw [List.foldl_cons, ih, Array.size_modify]

/-- Sweeping leaves the number of entries. -/
@[simp] theorem size_sweep (heap : Heap) (garbage : List Nat) :
    (heap.sweep garbage).entries.size = heap.entries.size :=
  size_clear garbage heap.entries

/-- Sweeping entries in use, each once, keeps the parts of the heap in agreement. -/
theorem WellFormed.sweep {heap : Heap} (hw : heap.WellFormed) {garbage : List Nat}
    (hn : garbage.Nodup)
    (hg : ∀ i ∈ garbage, ∃ e, heap.entries[i]? = some e ∧ e.object.isSome) :
    (heap.sweep garbage).WellFormed := by
  have hfree (i : Nat) (hi : i ∈ garbage) : i ∉ heap.free := by
    intro hf
    obtain ⟨e, he, ho⟩ := hg i hi
    obtain ⟨e', he', ho'⟩ := (hw.mem_free i).mp hf
    rw [he, Option.some.injEq] at he'
    simp [he', ho'] at ho
  have hnodup : (garbage.reverse ++ heap.free).Nodup := by
    rw [List.nodup_append]
    refine ⟨(List.reverse_perm garbage).nodup_iff.mpr hn, hw.free_nodup, ?_⟩
    rintro i hi j hj rfl
    exact hfree i (List.mem_reverse.mp hi) hj
  -- The swept and the free entries are different ones, so there are enough live objects.
  have hbound : (garbage.reverse ++ heap.free).length ≤ heap.entries.size := by
    rw [← List.length_range (n := heap.entries.size)]
    apply hnodup.length_le_of_subset
    intro i hi
    rw [List.mem_range]
    rcases List.mem_append.mp hi with hi | hi
    · obtain ⟨e, he, _⟩ := hg i (List.mem_reverse.mp hi)
      exact (Array.getElem?_eq_some_iff.mp he).1
    · obtain ⟨hs, _⟩ := hw.entry_of_mem_free hi
      exact hs
  have hcount := hw.live_add_free
  rw [List.length_append, List.length_reverse] at hbound
  refine ⟨hnodup, fun i => ?_, ?_, ?_⟩
  · rw [entries_sweep hn, show (heap.sweep garbage).free = garbage.reverse ++ heap.free from rfl,
      List.mem_append, List.mem_reverse, hw.mem_free i]
    by_cases hi : i ∈ garbage
    · obtain ⟨e, he, _⟩ := hg i hi
      simp [hi, he, Entry.clear]
    · simp [hi]
  · rw [size_sweep]
    simp only [Heap.sweep, List.length_append, List.length_reverse]
    omega
  · rw [size_sweep]
    exact hw.size_le

/-! ## Collecting -/

/-- The marks that a collection from some roots sets. -/
def marksFrom (heap : Heap) (roots : List Handle) : Array Bool :=
  heap.mark (Array.replicate heap.entries.size false) roots

/-- A collection sweeps what marking has not met, and counts it. -/
theorem collect_eq (heap : Heap) (roots : List Handle) :
    heap.collect roots = ((heap.garbage (heap.marksFrom roots)).length,
      heap.sweep (heap.garbage (heap.marksFrom roots))) := rfl

/-- A collection does not change the capacity. -/
@[simp] theorem capacity_collect (heap : Heap) (roots : List Handle) :
    (heap.collect roots).2.capacity = heap.capacity := rfl

/-- A heap stays well-formed when garbage is removed. -/
theorem WellFormed.collect {heap : Heap} (hw : heap.WellFormed) (roots : List Handle) :
    (heap.collect roots).2.WellFormed :=
  hw.sweep (nodup_garbage _ _) fun _ hi => (mem_garbage.mp hi).1

/-- A collection keeps exactly the handles to marked entries, with their objects. -/
theorem get?_collect_eq_some_iff {heap : Heap} {roots : List Handle} {handle : Handle}
    {object : Object} :
    (heap.collect roots).2.get? handle = some object ↔
      heap.get? handle = some object ∧ Marked (heap.marksFrom roots) handle.index.toNat := by
  rw [collect_eq, get?_sweep (nodup_garbage _ _)]
  by_cases hg : handle.index.toNat ∈ heap.garbage (heap.marksFrom roots)
  · simp [hg, (mem_garbage.mp hg).2]
  · rw [if_neg hg]
    refine ⟨fun h => ⟨h, ?_⟩, And.left⟩
    have he := get?_eq_some_iff.mp h
    by_cases hm : Marked (heap.marksFrom roots) handle.index.toNat
    · exact hm
    · exact absurd (mem_garbage.mpr ⟨⟨_, he, rfl⟩, hm⟩) hg

/-- What is live behind a collection was live before and is marked. -/
theorem live_collect_iff {heap : Heap} {roots : List Handle} {handle : Handle} :
    (heap.collect roots).2.Live handle ↔
      heap.Live handle ∧ Marked (heap.marksFrom roots) handle.index.toNat := by
  simp only [live_iff, get?_collect_eq_some_iff, exists_and_right]

private theorem traced_none (heap : Heap) (roots : List Handle) :
    heap.Traced (Array.replicate heap.entries.size false) roots := by
  intro handle object _ hm
  simp [Marked, Array.getElem?_replicate] at hm

/-- The live roots of a collection stay live. -/
theorem live_collect_of_root {heap : Heap} {roots : List Handle} {root : Handle}
    (hr : root ∈ roots) (hl : heap.Live root) : (heap.collect roots).2.Live root :=
  live_collect_iff.mpr ⟨hl, marked_of_mem Array.size_replicate hr hl⟩

/-- What a surviving object refers to survives, if it was live. -/
theorem live_collect_of_reference {heap : Heap} {roots : List Handle} {handle r : Handle}
    {object : Object} (ho : (heap.collect roots).2.get? handle = some object)
    (hr : r ∈ object.references) (hl : heap.Live r) : (heap.collect roots).2.Live r := by
  obtain ⟨hold, hm⟩ := get?_collect_eq_some_iff.mp ho
  have ht := (traced_none heap roots).mark Array.size_replicate
  rcases ht handle object hold hm r hr hl with hmr | hp
  · exact live_collect_iff.mpr ⟨hl, hmr⟩
  · exact absurd hp List.not_mem_nil

end Heap

end ManagedCode
