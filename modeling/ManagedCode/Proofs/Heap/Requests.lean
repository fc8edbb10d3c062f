import Mathlib.Data.List.Nodup
import Mathlib.Data.Set.Card
import ManagedCode.Proofs.Heap.Collecting

/-!
# A heap as a map from handles to objects

A heap serves requests one after another: it stores, looks up, changes and removes objects and
collects garbage. `Serves` says what a finite map from handles to objects would do on the same
request, without entries, free list or counter. After any history of requests the three parts of a
heap agree, and every further request is served as by the map that `Heap.get?` is.
-/

namespace ManagedCode.Heap

/-! ## Removing an object -/

/-- Removing an object empties its entry. -/
theorem release_of_get? {heap : Heap} {handle : Handle} {object : Object}
    (h : heap.get? handle = some object) :
    heap.release handle = .ok (object, heap.sweep [handle.index.toNat]) := by
  simp only [release, h]
  rfl

/-- Emptying the entry of a live handle makes this handle stale and keeps all others. -/
theorem get?_sweep_singleton {heap : Heap} {handle : Handle} (hl : heap.Live handle)
    (other : Handle) :
    (heap.sweep [handle.index.toNat]).get? other =
      if other = handle then none else heap.get? other := by
  rw [get?_sweep (List.nodup_singleton _)]
  simp only [List.mem_singleton]
  by_cases he : other = handle
  · rw [if_pos he, if_pos (congrArg (fun h => h.index.toNat) he)]
  · rw [if_neg he]
    by_cases hi : other.index.toNat = handle.index.toNat
    · -- Another handle to the same entry is of another generation.
      have hstale : ¬ heap.Live other := fun ho => he (eq_of_index_eq ho hl hi)
      rw [if_pos hi, Option.not_isSome_iff_eq_none.mp hstale]
    · rw [if_neg hi]

/-- A heap stays well-formed when an object is released. -/
theorem WellFormed.release {heap : Heap} (hw : heap.WellFormed) {handle : Handle}
    {object : Object} (h : heap.get? handle = some object) :
    (heap.sweep [handle.index.toNat]).WellFormed := by
  refine hw.sweep (List.nodup_singleton _) fun i hi => ?_
  rw [List.mem_singleton] at hi
  exact ⟨_, hi ▸ get?_eq_some_iff.mp h, rfl⟩

/-! ## Listing the live handles -/

private theorem mem_handles_iff_entry {heap : Heap} {handle : Handle} :
    handle ∈ heap.handles ↔
      ∃ i e, heap.entries[i]? = some e ∧ e.object.isSome ∧ handleOf i e = handle := by
  simp only [handles, List.mem_filterMap, List.mem_mapIdx, Option.ite_none_right_eq_some,
    Option.some.injEq]
  constructor
  · rintro ⟨_, ⟨i, hi, rfl⟩, hs, hh⟩
    refine ⟨i, heap.entries.toList[i], ?_, hs, hh⟩
    rw [← Array.getElem?_toList, List.getElem?_eq_getElem hi]
  · rintro ⟨i, e, he, hs, hh⟩
    rw [← Array.getElem?_toList] at he
    obtain ⟨hi, rfl⟩ := List.getElem?_eq_some_iff.mp he
    exact ⟨_, ⟨i, hi, rfl⟩, hs, hh⟩

private theorem toNat_index_handleOf {heap : Heap} (hs : heap.entries.size ≤ 2 ^ 32) {i : Nat}
    (hi : i < heap.entries.size) (e : Entry) : (handleOf i e).index.toNat = i := by
  rw [handleOf, Nat.toUInt32_eq, UInt32.toNat_ofNat_of_lt' (Nat.lt_of_lt_of_le hi hs)]

/-- The listed handles are the live ones. -/
theorem mem_handles_iff_live {heap : Heap} (hs : heap.entries.size ≤ 2 ^ 32) {handle : Handle} :
    handle ∈ heap.handles ↔ heap.Live handle := by
  rw [mem_handles_iff_entry, live_iff]
  constructor
  · rintro ⟨i, ⟨generation, object⟩, he, ho, rfl⟩
    obtain ⟨hi, _⟩ := Array.getElem?_eq_some_iff.mp he
    obtain ⟨object, rfl⟩ := Option.isSome_iff_exists.mp ho
    refine ⟨object, get?_eq_some_iff.mpr ?_⟩
    rw [toNat_index_handleOf hs hi, he]
    rfl
  · rintro ⟨object, ho⟩
    refine ⟨_, _, get?_eq_some_iff.mp ho, rfl, ?_⟩
    simp [handleOf]

/-- The handles are listed in the order of their entries. -/
theorem pairwise_handles {heap : Heap} (hs : heap.entries.size ≤ 2 ^ 32) :
    heap.handles.Pairwise fun a b => a.index < b.index := by
  rw [handles, List.pairwise_filterMap, List.pairwise_iff_getElem]
  intro i j hi hj hij a ha b hb
  simp only [List.getElem_mapIdx, Option.ite_none_right_eq_some, Option.some.injEq] at ha hb
  obtain ⟨_, rfl⟩ := ha
  obtain ⟨_, rfl⟩ := hb
  rw [List.length_mapIdx, Array.length_toList] at hi hj
  rw [UInt32.lt_iff_toNat_lt, toNat_index_handleOf hs hi, toNat_index_handleOf hs hj]
  exact hij

/-- No live handle is listed twice. -/
theorem nodup_handles {heap : Heap} (hs : heap.entries.size ≤ 2 ^ 32) : heap.handles.Nodup := by
  refine (pairwise_handles hs).imp fun {a b} hab he => ?_
  rw [he] at hab
  exact UInt32.lt_irrefl _ hab

/-- There are as many live handles as entries with an object. -/
theorem length_handles (heap : Heap) :
    heap.handles.length = heap.entries.toList.countP fun e => e.object.isSome := by
  have hsnd : (heap.entries.toList.mapIdx fun i e => (i, e)).map Prod.snd =
      heap.entries.toList := by
    apply List.ext_getElem?
    intro i
    simp
  rw [handles, List.length_filterMap_eq_countP]
  conv_rhs => rw [← hsnd, List.countP_map]
  refine List.countP_congr fun entry _ => ?_
  cases entry.2.object <;> simp

/-- The free list is as long as there are empty entries. -/
private theorem WellFormed.length_free {heap : Heap} (hw : heap.WellFormed) :
    heap.free.length = heap.entries.toList.countP fun e => !e.object.isSome := by
  have hempty : ((List.range heap.entries.size).filter fun i =>
      heap.entries[i]?.any fun e => !e.object.isSome).length =
        heap.entries.toList.countP fun e => !e.object.isSome := by
    have hentries : (List.range heap.entries.size).map (heap.entries[·]?) =
        heap.entries.toList.map some := by
      apply List.ext_getElem?
      intro i
      by_cases hi : i < heap.entries.size
      · simp [hi]
      · simp [hi]
    rw [← List.countP_eq_length_filter]
    have hmap := congrArg (List.countP (Option.any fun e : Entry => !e.object.isSome)) hentries
    rw [List.countP_map, List.countP_map] at hmap
    exact hmap
  rw [← hempty]
  refine ((List.perm_ext_iff_of_nodup hw.free_nodup (List.nodup_range.filter _)).mpr ?_).length_eq
  intro i
  rw [hw.mem_free, List.mem_filter, List.mem_range, Option.any_eq_true]
  constructor
  · rintro ⟨e, he, ho⟩
    exact ⟨(Array.getElem?_eq_some_iff.mp he).1, e, he, by simp [ho]⟩
  · rintro ⟨_, e, he, ho⟩
    exact ⟨e, he, by simpa using ho⟩

/-- The counter is the number of entries in use. -/
theorem WellFormed.live_eq {heap : Heap} (hw : heap.WellFormed) :
    heap.live = heap.entries.toList.countP fun e => e.object.isSome := by
  have hcount := hw.live_add_free
  have hsplit := List.length_eq_countP_add_countP (fun e : Entry => e.object.isSome)
    (l := heap.entries.toList)
  rw [hw.length_free] at hcount
  rw [Array.length_toList] at hsplit
  simp only [Bool.not_eq_true, Bool.decide_eq_false] at hsplit
  omega

/-! ## Requests -/

/-- What is asked of a heap. -/
inductive Request where
  | store (object : Object)
  | get (handle : Handle)
  /-- Changing an object in place. -/
  | edit (handle : Handle) (change : Object → Object)
  | release (handle : Handle)
  | collect (roots : List Handle)

/-- What a heap answers. -/
inductive Answer where
  | stored (handle : Handle)
  | found (object : Object)
  | edited
  | removed (object : Object)
  | collected (count : Nat)
  | refused (error : HeapError)

/-- Serves a request. -/
def serve (heap : Heap) : Request → Answer × Heap
  | .store object =>
    match heap.store object with
    | .ok (handle, heap) => (.stored handle, heap)
    | .error error => (.refused error, heap)
  | .get handle =>
    match heap.get handle with
    | .ok object => (.found object, heap)
    | .error error => (.refused error, heap)
  | .edit handle change =>
    match heap.get handle with
    | .ok _ => (.edited, heap.modify handle change)
    | .error error => (.refused error, heap)
  | .release handle =>
    match heap.release handle with
    | .ok (object, heap) => (.removed object, heap)
    | .error error => (.refused error, heap)
  | .collect roots =>
    let (count, heap) := heap.collect roots
    (.collected count, heap)

/-- The heap after serving requests in turn, made with a capacity. -/
def after (capacity : Nat) (requests : List Request) : Heap :=
  requests.foldl (fun heap request => (heap.serve request).2) (empty capacity)

/-- The number of handles that a map has an object for. -/
noncomputable def mapSize (map : Handle → Option Object) : Nat :=
  {handle | (map handle).isSome}.ncard

/-- How a map of at most `capacity` objects serves a request: its answer, and the map afterwards.
Which new handle is given to an object is left open, and so is which objects a collection keeps. -/
inductive Serves (capacity : Nat) (map : Handle → Option Object) :
    Request → Answer → (Handle → Option Object) → Prop
  | stored {object : Object} {handle : Handle} (room : mapSize map < capacity)
      (new : map handle = none) :
      Serves capacity map (.store object) (.stored handle)
        (Function.update map handle (some object))
  | full {object : Object} (full : mapSize map = capacity) :
      Serves capacity map (.store object) (.refused (.full capacity)) map
  | found {handle : Handle} {object : Object} (live : map handle = some object) :
      Serves capacity map (.get handle) (.found object) map
  | edited {handle : Handle} {change : Object → Object} {object : Object}
      (live : map handle = some object) :
      Serves capacity map (.edit handle change) .edited
        (Function.update map handle (some (change object)))
  | removed {handle : Handle} {object : Object} (live : map handle = some object) :
      Serves capacity map (.release handle) (.removed object) (Function.update map handle none)
  | missed {request : Request} {handle : Handle}
      (asked : request = .get handle ∨ (∃ change, request = .edit handle change) ∨
        request = .release handle) (stale : map handle = none) :
      Serves capacity map request (.refused (.notFound handle)) map
  | collected {roots : List Handle} {count : Nat} {kept : Handle → Option Object}
      (keeps : ∀ handle, kept handle = map handle ∨ kept handle = none)
      (counts : count + mapSize kept = mapSize map) :
      Serves capacity map (.collect roots) (.collected count) kept

/-- Serving a request keeps the capacity and the agreement of the parts. -/
theorem WellFormed.serve {heap : Heap} (hw : heap.WellFormed) (request : Request) :
    (heap.serve request).2.WellFormed ∧ (heap.serve request).2.capacity = heap.capacity := by
  cases request with
  | store object =>
    simp only [Heap.serve, Heap.store]
    cases hf : heap.isFull with
    | true => exact ⟨hw, rfl⟩
    | false => exact ⟨hw.add hf object, capacity_add heap object⟩
  | get handle =>
    simp only [Heap.serve]
    split <;> exact ⟨hw, rfl⟩
  | edit handle change =>
    simp only [Heap.serve]
    split
    · exact ⟨hw.modify handle change, rfl⟩
    · exact ⟨hw, rfl⟩
  | release handle =>
    cases hg : heap.get? handle with
    | none =>
      simpa only [Heap.serve, Heap.release, hg, and_true] using hw
    | some object =>
      simp only [Heap.serve, release_of_get? hg]
      exact ⟨hw.release hg, rfl⟩
  | collect roots => exact ⟨hw.collect roots, rfl⟩

/-- After any history the parts agree and the capacity is the one the heap was made with. -/
theorem wellFormed_after (capacity : Nat) (requests : List Request) :
    (after capacity requests).WellFormed ∧ (after capacity requests).capacity = capacity := by
  induction requests using List.reverseRecOn with
  | nil => exact ⟨wellFormed_empty capacity, rfl⟩
  | append_singleton requests request ih =>
    obtain ⟨hw, hc⟩ := ih
    have hstep := hw.serve request
    rw [after, List.foldl_append]
    exact ⟨hstep.1, hstep.2.trans hc⟩

/-! ## Serving as a map -/

/-- The live handles are those that are listed. -/
theorem setOf_live_eq {heap : Heap} (hs : heap.entries.size ≤ 2 ^ 32) :
    {handle | heap.Live handle} = (heap.handles.toFinset : Set Handle) := by
  ext handle
  rw [Finset.mem_coe, List.mem_toFinset, mem_handles_iff_live hs]
  rfl

/-- The map that a heap is has as many objects as the counter says. -/
theorem WellFormed.mapSize_get? {heap : Heap} (hw : heap.WellFormed)
    (hc : heap.capacity ≤ 2 ^ 32) : mapSize heap.get? = heap.live := by
  have hs : heap.entries.size ≤ 2 ^ 32 := Nat.le_trans hw.size_le hc
  have hset : {handle | (heap.get? handle).isSome} = (heap.handles.toFinset : Set Handle) :=
    setOf_live_eq hs
  rw [mapSize, hset, Set.ncard_coe_finset, List.toFinset_card_of_nodup (nodup_handles hs),
    length_handles, hw.live_eq]

/-- There are never more objects than the capacity. -/
theorem WellFormed.live_le {heap : Heap} (hw : heap.WellFormed) : heap.live ≤ heap.capacity := by
  have hcount := hw.live_add_free
  have hsize := hw.size_le
  omega

private theorem WellFormed.serves_store {heap : Heap} (hw : heap.WellFormed)
    (hc : heap.capacity ≤ 2 ^ 32) (object : Object) :
    Serves heap.capacity heap.get? (.store object) (heap.serve (.store object)).1
      (heap.serve (.store object)).2.get? := by
  have hsize := hw.mapSize_get? hc
  have hle := hw.live_le
  cases hf : heap.isFull with
  | true =>
    have hfull : heap.capacity ≤ heap.live := by simpa [isFull] using hf
    simp only [Heap.serve, Heap.store, hf, if_true]
    exact .full (by omega)
  | false =>
    have hroom : mapSize heap.get? < heap.capacity := by
      rw [hsize]
      exact WellFormed.live_lt_of_room hf
    have hnew := entry_before_add hw hc hf object rfl
    have hmap : (heap.add object).2.get? =
        Function.update heap.get? (heap.add object).1 (some object) := by
      funext handle
      rw [get?_add hw hc hf, Function.update_apply]
    simp only [Heap.serve, Heap.store, hf, Bool.false_eq_true, if_false]
    rw [hmap]
    exact .stored hroom hnew

private theorem serves_edit (heap : Heap) (handle : Handle) (change : Object → Object) :
    Serves heap.capacity heap.get? (.edit handle change) (heap.serve (.edit handle change)).1
      (heap.serve (.edit handle change)).2.get? := by
  cases hg : heap.get? handle with
  | none =>
    simp only [Heap.serve, Heap.get, hg]
    exact .missed (.inr (.inl ⟨change, rfl⟩)) hg
  | some object =>
    have hmap : (heap.modify handle change).get? =
        Function.update heap.get? handle (some (change object)) := by
      funext other
      rw [get?_modify, hg, Option.map_some, Function.update_apply]
    simp only [Heap.serve, Heap.get, hg]
    rw [hmap]
    exact .edited hg

private theorem serves_release (heap : Heap) (handle : Handle) :
    Serves heap.capacity heap.get? (.release handle) (heap.serve (.release handle)).1
      (heap.serve (.release handle)).2.get? := by
  cases hg : heap.get? handle with
  | none =>
    simp only [Heap.serve, Heap.release, hg]
    exact .missed (.inr (.inr rfl)) hg
  | some object =>
    have hmap : (heap.sweep [handle.index.toNat]).get? =
        Function.update heap.get? handle none := by
      funext other
      rw [get?_sweep_singleton (live_of_get? hg), Function.update_apply]
    simp only [Heap.serve, release_of_get? hg]
    rw [hmap]
    exact .removed hg

/-- A collection takes as many objects away as it says. -/
theorem WellFormed.live_collect {heap : Heap} (hw : heap.WellFormed) (roots : List Handle) :
    (heap.collect roots).1 + (heap.collect roots).2.live = heap.live := by
  have hbefore := hw.live_add_free
  have hafter := (hw.collect roots).live_add_free
  have hsize : (heap.collect roots).2.entries.size = heap.entries.size := size_sweep ..
  have hfree : (heap.collect roots).2.free.length =
      (heap.collect roots).1 + heap.free.length := by
    rw [collect_eq, show (heap.sweep _).free = _ ++ heap.free from rfl, List.length_append,
      List.length_reverse]
  omega

private theorem WellFormed.serves_collect {heap : Heap} (hw : heap.WellFormed)
    (hc : heap.capacity ≤ 2 ^ 32) (roots : List Handle) :
    Serves heap.capacity heap.get? (.collect roots) (heap.serve (.collect roots)).1
      (heap.serve (.collect roots)).2.get? := by
  have hcount := hw.live_collect roots
  rw [← hw.mapSize_get? hc, ← (hw.collect roots).mapSize_get? hc] at hcount
  refine .collected (fun handle => ?_) hcount
  show (heap.collect roots).2.get? handle = _ ∨ (heap.collect roots).2.get? handle = _
  rw [collect_eq, get?_sweep (nodup_garbage _ _)]
  by_cases hm : handle.index.toNat ∈ heap.garbage (heap.marksFrom roots)
  · exact .inr (if_pos hm)
  · exact .inl (if_neg hm)

/-- A well-formed heap serves every request as the map of its live objects does. -/
theorem WellFormed.serves {heap : Heap} (hw : heap.WellFormed) (hc : heap.capacity ≤ 2 ^ 32)
    (request : Request) :
    Serves heap.capacity heap.get? request (heap.serve request).1 (heap.serve request).2.get? := by
  cases request with
  | store object => exact hw.serves_store hc object
  | get handle =>
    cases hg : heap.get? handle with
    | none =>
      simp only [Heap.serve, Heap.get, hg]
      exact .missed (.inl rfl) hg
    | some object =>
      simp only [Heap.serve, Heap.get, hg]
      exact .found hg
  | edit handle change => exact serves_edit heap handle change
  | release handle => exact serves_release heap handle
  | collect roots => exact hw.serves_collect hc roots

/-- A request that is refused changes nothing at all. -/
theorem serve_of_refused {heap : Heap} {request : Request} {error : HeapError}
    (h : (heap.serve request).1 = .refused error) : (heap.serve request).2 = heap := by
  cases request with
  | collect roots => cases h
  | _ =>
    simp only [serve] at h ⊢
    split
    · rename_i hserved
      simp only [hserved, reduceCtorEq] at h
    · rfl

/-- A heap refines a finite map from handles to objects. After any history of requests its counter
is the number of entries in use and within the capacity, its free list has each empty entry once, it
never has more entries than the capacity, and it lists each live handle once, in the order of the
entries. It serves every further request as the map would: an object is refused exactly if as many
are live as the capacity allows and otherwise gets a handle that was not live, a removal succeeds
exactly for a live handle and removes only this one, and what is refused changes nothing. -/
theorem heap_refines_map {capacity : Nat} (hc : capacity ≤ 2 ^ 32) (requests : List Request) :
    let heap := after capacity requests
    heap.capacity = capacity ∧
    (heap.live = heap.entries.toList.countP fun e => e.object.isSome) ∧
    heap.live ≤ capacity ∧
    heap.free.Nodup ∧
    (∀ i, i ∈ heap.free ↔ ∃ e, heap.entries[i]? = some e ∧ e.object = none) ∧
    heap.entries.size ≤ capacity ∧
    (∀ handle, handle ∈ heap.handles ↔ (heap.get? handle).isSome) ∧
    (heap.handles.Pairwise fun a b => a.index < b.index) ∧
    mapSize heap.get? = heap.live ∧
    ∀ request, Serves capacity heap.get? request (heap.serve request).1
        (heap.serve request).2.get? ∧
      ∀ error, (heap.serve request).1 = .refused error → (heap.serve request).2 = heap := by
  intro heap
  obtain ⟨hw, hcapacity⟩ : heap.WellFormed ∧ heap.capacity = capacity :=
    wellFormed_after capacity requests
  rw [← hcapacity] at hc ⊢
  have hs : heap.entries.size ≤ 2 ^ 32 := Nat.le_trans hw.size_le hc
  refine ⟨rfl, hw.live_eq, hw.live_le, hw.free_nodup, hw.mem_free, hw.size_le,
    fun handle => mem_handles_iff_live hs, pairwise_handles hs, hw.mapSize_get? hc, ?_⟩
  intro request
  exact ⟨hw.serves hc request, fun error => serve_of_refused⟩

/-- An entry used a second time: the heap is full again, and the old handle stays stale. -/
theorem heap_refines_map_reused :
    let node : Object := ⟨⟨0⟩, []⟩
    let heap := after 2 [.store node, .store node, .release ⟨0, 0⟩, .store node]
    2 ≤ 2 ^ 32 ∧ heap.handles = [⟨0, 1⟩, ⟨1, 0⟩] ∧ heap.live = 2 ∧
      Serves 2 heap.get? (.store node) (.refused (.full 2)) heap.get? ∧
      Serves 2 heap.get? (.release ⟨0, 0⟩) (.refused (.notFound ⟨0, 0⟩)) heap.get? := by
  intro node heap
  have hrequests := @heap_refines_map 2 (by decide)
    [.store node, .store node, .release ⟨0, 0⟩, .store node]
  obtain ⟨_, _, _, _, _, _, _, _, _, hserves⟩ := hrequests
  have hfull : heap.serve (.store node) = (.refused (.full 2), heap) := rfl
  have hstale : heap.serve (.release ⟨0, 0⟩) = (.refused (.notFound ⟨0, 0⟩), heap) := rfl
  refine ⟨by decide, by decide, by decide, ?_, ?_⟩
  · have h := (hserves (.store node)).1
    rwa [show after 2 _ = heap from rfl, hfull] at h
  · have h := (hserves (.release ⟨0, 0⟩)).1
    rwa [show after 2 _ = heap from rfl, hstale] at h

end ManagedCode.Heap
