import ManagedCode.Proofs.Heap.Requests

/-!
# Handles to reclaimed objects

The generation of an entry counts, modulo `2 ^ 32`, how often the entry was emptied, and nothing
else changes it. So a handle whose object was reclaimed names an object again only when its entry
has been emptied a multiple of `2 ^ 32` times since the handle was given out. Until then it is
refused, and a refused request changes nothing.
-/

namespace ManagedCode.Heap

/-- The heap after serving requests in turn. -/
def serveAll (heap : Heap) (requests : List Request) : Heap :=
  requests.foldl (fun heap request => (heap.serve request).2) heap

/-- Whether the entry at an index holds an object. -/
def inUse (heap : Heap) (index : Nat) : Bool := heap.entries[index]?.any fun e => e.object.isSome

/-- Whether serving the request empties the entry at an index. -/
def reclaims (heap : Heap) (index : Nat) (request : Request) : Bool :=
  heap.inUse index && !(heap.serve request).2.inUse index

/-- How often the entry at an index is emptied while requests are served in turn. -/
def reclamations (index : Nat) : (heap : Heap) → List Request → Nat
  | _, [] => 0
  | heap, request :: requests =>
    (heap.reclaims index request).toNat + reclamations index (heap.serve request).2 requests

/-! ## One request -/

/-- What serving a request may do to an entry: it keeps its generation and is not emptied, or it is
emptied. -/
inductive Ages (e : Entry) : Entry → Prop
  | kept {e' : Entry} (generation : e'.generation = e.generation)
      (used : e.object.isSome → e'.object.isSome) : Ages e e'
  | emptied (used : e.object.isSome) : Ages e e.clear

/-- An entry ages by nothing where nothing happens to it. -/
theorem Ages.refl (e : Entry) : Ages e e := .kept rfl id

section Entries

variable {heap : Heap} {index : Nat} {e : Entry}

/-- An index is in use exactly if its entry has an object. -/
theorem inUse_of_entry (he : heap.entries[index]? = some e) :
    heap.inUse index = e.object.isSome := by
  simp [inUse, he]

/-- Storing an object keeps the generations of all entries. -/
theorem ages_add (he : heap.entries[index]? = some e) (object : Object) :
    ∃ e', (heap.add object).2.entries[index]? = some e' ∧ Ages e e' := by
  cases hf : heap.free with
  | nil =>
    obtain ⟨hlt, _⟩ := Array.getElem?_eq_some_iff.mp he
    refine ⟨e, ?_, .refl e⟩
    simp only [add, hf, Array.getElem?_push_lt hlt, ← he, Array.getElem?_eq_getElem hlt]
  | cons i rest =>
    simp only [add, hf, Array.getElem?_modify, he]
    by_cases hi : i = index
    · exact ⟨{ e with object := some object }, by simp [hi], .kept rfl fun _ => rfl⟩
    · exact ⟨e, by simp [hi], .refl e⟩

/-- A change of an object ages no entry. -/
theorem ages_modify (he : heap.entries[index]? = some e) (handle : Handle)
    (change : Object → Object) :
    ∃ e', (heap.modify handle change).entries[index]? = some e' ∧ Ages e e' := by
  simp only [modify, Array.getElem?_modify, he]
  by_cases hi : handle.index.toNat = index
  · by_cases hg : e.generation = handle.generation
    · exact ⟨{ e with object := e.object.map change }, by simp [hi, hg], .kept rfl (by simp)⟩
    · exact ⟨e, by simp [hi, hg], .refl e⟩
  · exact ⟨e, by simp [hi], .refl e⟩

/-- Sweeping empties entries that are in use. -/
theorem ages_sweep (he : heap.entries[index]? = some e) {garbage : List Nat}
    (hn : garbage.Nodup) (hg : index ∈ garbage → e.object.isSome) :
    ∃ e', (heap.sweep garbage).entries[index]? = some e' ∧ Ages e e' := by
  rw [entries_sweep hn, he]
  by_cases hm : index ∈ garbage
  · exact ⟨e.clear, by simp [hm], .emptied (hg hm)⟩
  · exact ⟨e, by simp [hm], .refl e⟩

/-- Serving a request removes no entry, and only emptying one changes its generation. -/
theorem ages_serve (he : heap.entries[index]? = some e) (request : Request) :
    ∃ e', (heap.serve request).2.entries[index]? = some e' ∧ Ages e e' := by
  cases request with
  | store object =>
    simp only [serve, store]
    cases heap.isFull with
    | true => exact ⟨e, he, .refl e⟩
    | false => exact ages_add he object
  | get handle =>
    simp only [serve]
    split <;> exact ⟨e, he, .refl e⟩
  | edit handle change =>
    simp only [serve]
    split
    · exact ages_modify he handle change
    · exact ⟨e, he, .refl e⟩
  | release handle =>
    cases hg : heap.get? handle with
    | none =>
      simp only [serve, release, hg]
      exact ⟨e, he, .refl e⟩
    | some object =>
      simp only [serve, release_of_get? hg]
      refine ages_sweep he (List.nodup_singleton _) fun hm => ?_
      rw [List.mem_singleton] at hm
      rw [get?_eq_some_iff, ← hm, he, Option.some.injEq] at hg
      rw [hg]
      rfl
  | collect roots =>
    refine ages_sweep he (nodup_garbage _ _) fun hm => ?_
    obtain ⟨⟨found, hfound, hused⟩, _⟩ := mem_garbage.mp hm
    rw [he, Option.some.injEq] at hfound
    exact hfound ▸ hused

/-- The generation of an entry counts how often it is emptied. -/
theorem generation_serve (he : heap.entries[index]? = some e) (request : Request) :
    ∃ e', (heap.serve request).2.entries[index]? = some e' ∧
      e'.generation = e.generation + UInt32.ofNat (heap.reclaims index request).toNat ∧
      (heap.reclaims index request = false → e.object.isSome → e'.object.isSome) := by
  obtain ⟨e', he', hages⟩ := ages_serve he request
  refine ⟨e', he', ?_⟩
  rw [reclaims, inUse_of_entry he, inUse_of_entry he']
  cases hages with
  | kept generation used =>
    refine ⟨?_, fun _ => used⟩
    cases hu : e.object.isSome with
    | false => simp [generation]
    | true => simp [generation, used hu]
  | emptied used => simp [used, Entry.clear]

/-! ## A history of requests -/

/-- The generation of an entry counts how often it was reclaimed, and an entry that never was keeps
its object. -/
theorem generation_serveAll (he : heap.entries[index]? = some e) (requests : List Request) :
    ∃ e', (heap.serveAll requests).entries[index]? = some e' ∧
      e'.generation = e.generation + UInt32.ofNat (reclamations index heap requests) ∧
      (reclamations index heap requests = 0 → e.object.isSome → e'.object.isSome) := by
  induction requests generalizing heap e with
  | nil => exact ⟨e, he, by simp [reclamations], fun _ => id⟩
  | cons request requests ih =>
    obtain ⟨middle, hmiddle, hgeneration, hused⟩ := generation_serve he request
    obtain ⟨e', he', hgeneration', hused'⟩ := ih hmiddle
    refine ⟨e', he', ?_, fun hnone hsome => ?_⟩
    · rw [hgeneration', hgeneration, reclamations, UInt32.ofNat_add, UInt32.add_assoc]
    · rw [reclamations, Nat.add_eq_zero_iff] at hnone
      exact hused' hnone.2 (hused (by simpa using hnone.1) hsome)

end Entries

/-- A handle to an entry in use is live if the entry has its generation. -/
theorem live_iff_of_entry {heap : Heap} {handle : Handle} {e : Entry}
    (he : heap.entries[handle.index.toNat]? = some e) :
    heap.Live handle ↔ e.object.isSome ∧ e.generation = handle.generation := by
  obtain ⟨generation, object⟩ := e
  rw [live_iff]
  simp only [get?_eq_some_iff, he, Option.some.injEq, Entry.mk.injEq]
  cases object with
  | none => simp
  | some object => simp

/-- A generation comes back exactly after multiples of 2 ^ 32. -/
theorem add_ofNat_eq_self_iff {generation : UInt32} {count : Nat} :
    generation + UInt32.ofNat count = generation ↔ 2 ^ 32 ∣ count := by
  rw [UInt32.add_eq_left, ← UInt32.toNat_inj, UInt32.toNat_ofNat', Nat.dvd_iff_mod_eq_zero]
  rfl

/-- A stale handle is refused, and nothing changes. -/
theorem serve_of_stale {heap : Heap} {handle : Handle} (h : ¬ heap.Live handle) :
    heap.serve (.get handle) = (.refused (.notFound handle), heap) ∧
      (∀ change, heap.serve (.edit handle change) = (.refused (.notFound handle), heap)) ∧
      heap.serve (.release handle) = (.refused (.notFound handle), heap) := by
  have hnone : heap.get? handle = none := Option.not_isSome_iff_eq_none.mp h
  refine ⟨?_, fun change => ?_, ?_⟩
  · simp only [serve, get, hnone]
  · simp only [serve, get, hnone]
  · simp only [serve, release, hnone]

/-- Handles to reclaimed objects do not alias. A handle that was given out for an object is live as
long as its entry is not emptied. Later it is live exactly if the entry is in use and was emptied a
multiple of `2 ^ 32` times since, which after the first time is a positive multiple. So with fewer
reclamations of its entry the handle is refused in every further request, which changes nothing,
whatever else was stored in the entry. -/
theorem reclaimed_handle_stale {capacity : Nat} (hc : capacity ≤ 2 ^ 32) (before : List Request)
    {object : Object} {handle : Handle}
    (hs : ((after capacity before).serve (.store object)).1 = .stored handle)
    (later : List Request) :
    let issued := after capacity (before ++ [.store object])
    let heap := after capacity (before ++ .store object :: later)
    let count := reclamations handle.index.toNat issued later
    (count = 0 → heap.Live handle) ∧
      (heap.Live handle ↔ heap.inUse handle.index.toNat ∧ 2 ^ 32 ∣ count) ∧
      (0 < count → heap.Live handle → ∃ wraps, 0 < wraps ∧ count = wraps * 2 ^ 32) ∧
      (0 < count → count < 2 ^ 32 →
        heap.serve (.get handle) = (.refused (.notFound handle), heap) ∧
        (∀ change, heap.serve (.edit handle change) = (.refused (.notFound handle), heap)) ∧
        heap.serve (.release handle) = (.refused (.notFound handle), heap)) := by
  intro issued heap count
  obtain ⟨hw, hcapacity⟩ := wellFormed_after capacity before
  rw [← hcapacity] at hc
  -- The handle names the entry that was written for the object.
  have hissued : issued = ((after capacity before).serve (.store object)).2 := by
    simp only [issued, after, List.foldl_append, List.foldl_cons, List.foldl_nil]
  have hheap : heap = issued.serveAll later := by
    simp only [heap, issued, after, serveAll, List.foldl_append, List.foldl_cons, List.foldl_nil]
  have hentry : issued.entries[handle.index.toNat]? = some ⟨handle.generation, some object⟩ := by
    rw [hissued]
    simp only [serve, store] at hs ⊢
    cases hf : (after capacity before).isFull with
    | true => simp [hf] at hs
    | false =>
      simp only [hf, Bool.false_eq_true, if_false, Answer.stored.injEq] at hs ⊢
      rw [entries_add hw hc hf, if_pos (by rw [hs]), hs]
  obtain ⟨e, he, hgeneration, hused⟩ := generation_serveAll hentry later
  rw [← hheap] at he
  have hlive : heap.Live handle ↔ heap.inUse handle.index.toNat ∧ 2 ^ 32 ∣ count := by
    rw [live_iff_of_entry he, inUse_of_entry he, hgeneration, add_ofNat_eq_self_iff]
  refine ⟨fun hnone => hlive.mpr ⟨?_, hnone ▸ Nat.dvd_zero _⟩, hlive, fun hpos hl => ?_,
    fun hpos hlt => ?_⟩
  · rw [inUse_of_entry he]
    exact hused hnone rfl
  · obtain ⟨wraps, hwraps⟩ := (hlive.mp hl).2
    exact ⟨wraps, by omega, by rw [hwraps, Nat.mul_comm]⟩
  · exact serve_of_stale fun hl => absurd (Nat.le_of_dvd hpos (hlive.mp hl).2) (Nat.not_le.mpr hlt)

/-- An entry emptied twice, once by a release and once by a collection, and used a third time. -/
theorem reclaimed_handle_stale_reused :
    let node : Object := ⟨⟨0⟩, []⟩
    let handle : Handle := ⟨0, 0⟩
    let later : List Request := [.release handle, .store node, .collect [handle], .store node]
    let heap := after 2 ([] ++ .store node :: later)
    2 ≤ 2 ^ 32 ∧ ((after 2 []).serve (.store node)).1 = .stored handle ∧
      reclamations handle.index.toNat (after 2 ([] ++ [.store node])) later = 2 ∧
      heap.get? ⟨0, 2⟩ = some node ∧
      heap.serve (.get handle) = (.refused (.notFound handle), heap) ∧
      heap.serve (.release handle) = (.refused (.notFound handle), heap) := by
  intro node handle later heap
  have hmarks : Heap.marksFrom ⟨#[⟨1, some node⟩], [], 2, 1⟩ [handle] = #[false] := by cbv
  have hcollected : (serve ⟨#[⟨1, some node⟩], [], 2, 1⟩ (.collect [handle])).2 =
      ⟨#[⟨2, none⟩], [0], 2, 0⟩ := by
    rw [serve, collect_eq, hmarks]
    rfl
  have hreused : heap.get? ⟨0, 2⟩ = some node := by
    rw [show heap = ((serve ⟨#[⟨1, some node⟩], [], 2, 1⟩ (.collect [handle])).2.serve
      (.store node)).2 from rfl, hcollected]
    rfl
  have hstored : ((after 2 []).serve (.store node)).1 = .stored handle := rfl
  obtain ⟨-, -, -, hstale⟩ := reclaimed_handle_stale (by decide) [] hstored later
  have hcount : reclamations handle.index.toNat (after 2 ([] ++ [.store node])) later = 2 := by
    rw [show reclamations handle.index.toNat (after 2 ([] ++ [.store node])) later = 1 + (0 +
      reclamations 0 ⟨#[⟨1, some node⟩], [], 2, 1⟩ [.collect [handle], .store node]) from rfl,
      reclamations, reclaims, hcollected]
    rfl
  rw [hcount] at hstale
  obtain ⟨hget, -, hrelease⟩ := hstale (by decide) (by decide)
  exact ⟨by decide, hstored, hcount, hreused, hget, hrelease⟩

end ManagedCode.Heap
