import ManagedCode.Proofs.Heap.Requests
import ManagedCode.Proofs.Machine.References

/-!
# Collections keep exactly what is reachable

A handle is reachable from some roots when it is live and is a root or a value in a slot, an array
or a list of a reachable object. Marking marks the entries of exactly these handles, whatever cycles
and stale references there are. So a collection removes all other objects and nothing else, and what
it does depends on the set of reachable handles only.
-/

namespace ManagedCode.Heap

/-- A live handle that can be reached from the roots through the contents of live objects. -/
inductive Reaches (heap : Heap) (roots : List Handle) : Handle → Prop
  | root {handle : Handle} (hr : handle ∈ roots) (hl : heap.Live handle) : Reaches heap roots handle
  | step {handle next : Handle} {object : Object} {slot : Slot} (h : Reaches heap roots handle)
      (ho : heap.get? handle = some object) (hs : slot ∈ object.slots)
      (hv : Value.ref next ∈ slot.values) (hl : heap.Live next) : Reaches heap roots next

variable {heap : Heap} {roots : List Handle}

/-- What is reached is live. -/
theorem Reaches.live {handle : Handle} (h : heap.Reaches roots handle) : heap.Live handle := by
  cases h with
  | root _ hl => exact hl
  | step _ _ _ _ hl => exact hl

/-! ## Marks -/

/-- Every marked entry is that of a reachable handle. -/
def MarksReached (heap : Heap) (roots : List Handle) (marks : Array Bool) : Prop :=
  ∀ i, Marked marks i → ∃ handle, heap.Reaches roots handle ∧ handle.index.toNat = i

private theorem MarksReached.set {marks : Array Bool} {handle : Handle}
    (hm : heap.MarksReached roots marks) (hs : handle.index.toNat < marks.size)
    (hr : heap.Reaches roots handle) :
    heap.MarksReached roots (marks.set handle.index.toNat true) := by
  intro i hi
  by_cases he : handle.index.toNat = i
  · exact ⟨handle, hr, he⟩
  · refine hm i ?_
    simpa [Marked, Array.getElem?_set, he] using hi

/-- Marking from reachable handles marks only what is reachable. -/
theorem MarksReached.mark {marks : Array Bool} {pending : List Handle}
    (hm : heap.MarksReached roots marks)
    (hp : ∀ handle ∈ pending, heap.Live handle → heap.Reaches roots handle) :
    heap.MarksReached roots (heap.mark marks pending) := by
  fun_induction Heap.mark heap marks pending with
  | case1 => exact hm
  | case2 marks handle pending hg ih =>
    exact ih hm fun other ho => hp other (List.mem_cons_of_mem _ ho)
  | case3 marks handle pending object hg hs hunmarked ih =>
    have hreached := hp handle List.mem_cons_self (live_of_get? hg)
    refine ih (hm.set hs hreached) fun other ho hl => ?_
    rcases List.mem_append.mp ho with ho | ho
    · obtain ⟨slot, hslot, hv⟩ := Object.mem_references_iff.mp ho
      exact .step hreached hg hslot hv hl
    · exact hp other (List.mem_cons_of_mem _ ho) hl
  | case4 marks handle pending object hg hs hmarked ih =>
    exact ih hm fun other ho => hp other (List.mem_cons_of_mem _ ho)
  | case5 marks handle pending object hg hs ih =>
    exact ih hm fun other ho => hp other (List.mem_cons_of_mem _ ho)

/-- A collection marks the entries of exactly the reachable handles. -/
theorem marked_marksFrom_iff {i : Nat} :
    Marked (heap.marksFrom roots) i ↔
      ∃ handle, heap.Reaches roots handle ∧ handle.index.toNat = i := by
  constructor
  · have hnone : heap.MarksReached roots (Array.replicate heap.entries.size false) := by
      intro j hj
      simp [Marked, Array.getElem?_replicate] at hj
    exact hnone.mark (fun _ hr hl => .root hr hl) i
  · rintro ⟨handle, hr, rfl⟩
    have hkept : (heap.collect roots).2.Live handle := by
      induction hr with
      | root hr hl => exact live_collect_of_root hr hl
      | step h ho hs hv hl ih =>
        obtain ⟨object, hobject⟩ := live_iff.mp ih
        have hsame := (get?_collect_eq_some_iff.mp hobject).1
        rw [ho, Option.some.injEq] at hsame
        subst hsame
        exact live_collect_of_reference hobject (Object.mem_references_iff.mpr ⟨_, hs, hv⟩) hl
    exact (live_collect_iff.mp hkept).2

/-! ## Collections -/

/-- A collection leaves exactly the reachable handles live. -/
theorem live_collect_iff_reaches {handle : Handle} :
    (heap.collect roots).2.Live handle ↔ heap.Reaches roots handle := by
  rw [live_collect_iff, marked_marksFrom_iff]
  constructor
  · rintro ⟨hl, other, hr, hi⟩
    exact eq_of_index_eq hr.live hl hi ▸ hr
  · intro hr
    exact ⟨hr.live, handle, hr, rfl⟩

/-- A reachable handle keeps its object. -/
theorem Reaches.get?_collect {handle : Handle} (h : heap.Reaches roots handle) :
    (heap.collect roots).2.get? handle = heap.get? handle := by
  obtain ⟨object, ho⟩ := live_iff.mp h.live
  rw [ho]
  exact get?_collect_eq_some_iff.mpr ⟨ho, marked_marksFrom_iff.mpr ⟨handle, h, rfl⟩⟩

/-- The numbers of the removed entries depend on the reachable handles only. -/
private theorem garbage_eq {others : List Handle}
    (h : ∀ handle, heap.Reaches others handle ↔ heap.Reaches roots handle) :
    heap.garbage (heap.marksFrom others) = heap.garbage (heap.marksFrom roots) := by
  have hmarks (i : Nat) : (heap.marksFrom others).getD i false =
      (heap.marksFrom roots).getD i false := by
    have hmarked (marks : Array Bool) : marks.getD i false = true ↔ Marked marks i := by
      rw [Marked, Array.getD_eq_getD_getElem?]
      cases marks[i]? <;> simp
    rw [Bool.eq_iff_iff, hmarked, hmarked, marked_marksFrom_iff, marked_marksFrom_iff]
    simp only [h]
  unfold garbage
  simp only [hmarks]

/-- Mark and sweep is exact. After a collection the live handles are those that were reachable from
the roots, each with its object; every other handle names nothing; the answer is the number of
removed objects; and the outcome depends on the reachable handles only, not on the order of the
roots or on roots that lead nowhere. -/
theorem collect_exact {capacity : Nat} (hc : capacity ≤ 2 ^ 32) (requests : List Request)
    (roots : List Handle) :
    let heap := after capacity requests
    let outcome := heap.collect roots
    (∀ handle, outcome.2.Live handle ↔ heap.Reaches roots handle) ∧
    (∀ handle, heap.Reaches roots handle → outcome.2.get? handle = heap.get? handle) ∧
    (∀ handle, heap.Live handle → ¬ heap.Reaches roots handle →
      outcome.2.get handle = .error (.notFound handle)) ∧
    outcome.1 = {handle | heap.Live handle ∧ ¬ heap.Reaches roots handle}.ncard ∧
    outcome.1 + outcome.2.live = heap.live ∧
    ∀ others, (∀ handle, heap.Reaches others handle ↔ heap.Reaches roots handle) →
      heap.collect others = outcome := by
  intro heap outcome
  obtain ⟨hw, hcapacity⟩ : heap.WellFormed ∧ heap.capacity = capacity :=
    wellFormed_after capacity requests
  have hlive (handle : Handle) : outcome.2.Live handle ↔ heap.Reaches roots handle :=
    live_collect_iff_reaches
  have hcount : outcome.1 + outcome.2.live = heap.live := hw.live_collect roots
  refine ⟨hlive, fun _ => Reaches.get?_collect, ?_, ?_, hcount, ?_⟩
  · intro handle _ hr
    have hnone : outcome.2.get? handle = none :=
      Option.not_isSome_iff_eq_none.mp fun hl => hr ((hlive handle).mp hl)
    rw [get, hnone]
  · have hset : {handle | heap.Live handle ∧ ¬ heap.Reaches roots handle} =
        {handle | heap.Live handle} \ {handle | outcome.2.Live handle} := by
      ext handle
      simp only [Set.mem_ofPred_eq, Set.mem_sdiff, hlive]
    -- What was live and is not any more was removed, so the two numbers differ by it.
    have hsub : {handle | outcome.2.Live handle} ⊆ {handle | heap.Live handle} :=
      fun handle hl => ((hlive handle).mp hl).live
    have hbefore : {handle | heap.Live handle}.ncard = heap.live :=
      hw.mapSize_get? (hcapacity ▸ hc)
    have hafter : {handle | outcome.2.Live handle}.ncard = outcome.2.live :=
      (hw.collect roots).mapSize_get? (hcapacity ▸ hc)
    have hfinite : {handle | outcome.2.Live handle}.Finite := by
      rw [setOf_live_eq (Nat.le_trans (hw.collect roots).size_le (hcapacity ▸ hc))]
      exact Finset.finite_toSet _
    rw [hset, Set.ncard_sdiff hsub hfinite, hbefore, hafter]
    omega
  · intro others hothers
    show heap.collect others = heap.collect roots
    rw [collect_eq, collect_eq, garbage_eq hothers]

/-- Two objects that refer to each other and one that nothing refers to; the roots name the first
object twice and a handle that was never given out. -/
theorem collect_exact_cycle :
    let node (next : Handle) : Object := ⟨⟨0⟩, [.value (.ref next)]⟩
    let heap := after 3 [.store (node ⟨1, 0⟩), .store (node ⟨0, 0⟩), .store (node ⟨0, 0⟩)]
    let outcome := heap.collect [⟨0, 0⟩, ⟨7, 7⟩, ⟨0, 0⟩]
    3 ≤ 2 ^ 32 ∧ outcome.1 = 1 ∧ ¬ heap.Reaches [⟨0, 0⟩, ⟨7, 7⟩, ⟨0, 0⟩] ⟨2, 0⟩ ∧
      outcome.2.get ⟨2, 0⟩ = .error (.notFound ⟨2, 0⟩) ∧
      outcome.2.get? ⟨1, 0⟩ = some (node ⟨0, 0⟩) := by
  intro node heap outcome
  obtain ⟨hlive, hkept, hremoved, _, _, _⟩ := @collect_exact 3 (by decide)
    [.store (node ⟨1, 0⟩), .store (node ⟨0, 0⟩), .store (node ⟨0, 0⟩)]
    [⟨0, 0⟩, ⟨7, 7⟩, ⟨0, 0⟩]
  have hreached : heap.Reaches [⟨0, 0⟩, ⟨7, 7⟩, ⟨0, 0⟩] ⟨1, 0⟩ :=
    .step (.root List.mem_cons_self (show heap.Live ⟨0, 0⟩ from rfl))
      (show heap.get? ⟨0, 0⟩ = some (node ⟨1, 0⟩) from rfl) List.mem_cons_self
      List.mem_cons_self (show heap.Live ⟨1, 0⟩ from rfl)
  have hmarks : Heap.marksFrom
      ⟨#[⟨0, some (node ⟨1, 0⟩)⟩, ⟨0, some (node ⟨0, 0⟩)⟩, ⟨0, some (node ⟨0, 0⟩)⟩], [], 3, 3⟩
      [⟨0, 0⟩, ⟨7, 7⟩, ⟨0, 0⟩] = #[true, true, false] := by cbv
  have houtcome : outcome = (1, ⟨#[⟨0, some (node ⟨1, 0⟩)⟩, ⟨0, some (node ⟨0, 0⟩)⟩, ⟨1, none⟩],
      [2], 3, 2⟩) := by
    rw [show outcome = _ from collect_eq heap _, show heap.marksFrom _ = _ from hmarks]
    rfl
  have hlost : ¬ heap.Reaches [⟨0, 0⟩, ⟨7, 7⟩, ⟨0, 0⟩] ⟨2, 0⟩ := by
    rw [← hlive, show heap.collect _ = _ from houtcome]
    decide
  exact ⟨by decide, by rw [houtcome], hlost, hremoved ⟨2, 0⟩ rfl hlost, hkept ⟨1, 0⟩ hreached⟩

end ManagedCode.Heap
