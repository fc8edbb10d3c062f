import Mathlib.Algebra.Group.Nat.Defs
import ManagedCode.Proofs.Execution.Composition

/-!
# Composed computations make no dangling references

A machine is sound when its heap is well-formed, its handles can address every entry, and no
reference dangles. A composed computation on a sound machine ends in a sound one with every live
handle still live, whether it succeeds or faults, and it never faults because a handle is stale.
-/

namespace ManagedCode

namespace Machine

/-- The heap is well-formed, 32-bit indices address all its entries, and no reference dangles. -/
structure Sound (m : Machine) : Prop where
  heap : m.heap.WellFormed
  capacity : m.heap.capacity ≤ 2 ^ 32
  noDangling : m.NoDangling

/-- An outcome on a sound machine: sound again, with good values in the result and no fault about a
stale handle. -/
def Safely {α : Type} (m : Machine) (given : α → List Value) : Outcome α → Prop
  | .ok a m' => m'.Sound ∧ m.Grows m' ∧ m'.Holds (given a)
  | .error fault m' => m'.Sound ∧ m.Grows m' ∧ ¬ fault.IsMissing

/-! ## Changes that keep a machine sound -/

/-- Of a machine with other frames only the frames matter. -/
theorem Sound.setFrames {m m' : Machine} (hs : m.Sound) (hheap : m'.heap = m.heap)
    (hstatics : m'.statics = m.statics)
    (hf : ∀ frame ∈ m'.calls.frames, m.Holds frame.values) : m'.Sound := by
  obtain ⟨catalog, heap, calls, statics, core, options, output, files⟩ := m'
  subst hheap hstatics
  exact ⟨hs.heap, hs.capacity, ⟨hf, hs.noDangling.statics, hs.noDangling.objects⟩⟩

/-- The catalog, the console, the files and the frame left last do not matter. -/
theorem Sound.elsewhere {m m' : Machine} (hs : m.Sound) (hheap : m'.heap = m.heap)
    (hstatics : m'.statics = m.statics) (hframes : m'.calls.frames = m.calls.frames) : m'.Sound :=
  hs.setFrames hheap hstatics (hframes ▸ hs.noDangling.frames)

/-- No object goes from a heap that is the same. -/
theorem Grows.of_eq {m m' : Machine} (h : m'.heap = m.heap) : m.Grows m' := fun _ hl => h ▸ hl

/-- The running frame may change to one with good values. -/
theorem Sound.modifyTop {m : Machine} (hs : m.Sound) {f : Frame → Frame}
    (hf : ∀ frame, m.calls.top? = some frame → m.Holds (f frame).values) :
    { m with calls := m.calls.modifyTop f }.Sound := by
  refine hs.setFrames rfl rfl ?_
  intro frame hm
  have hold := hs.noDangling.frames
  unfold CallStack.modifyTop at hm
  unfold CallStack.top? at hf
  split at hm
  · exact hold frame hm
  · rename_i top rest he
    rcases List.mem_cons.mp hm with rfl | hr
    · exact hf top (by rw [he]; rfl)
    · exact hold frame (by rw [he]; exact List.mem_cons_of_mem _ hr)

/-- A new object may refer to live objects. -/
theorem Sound.add {m : Machine} (hs : m.Sound) (hr : m.heap.isFull = false) {object : Object}
    (ho : ∀ r ∈ object.references, m.heap.Live r) :
    { m with heap := (m.heap.add object).2 }.Sound ∧
      m.Grows { m with heap := (m.heap.add object).2 } := by
  have hg : m.Grows { m with heap := (m.heap.add object).2 } := fun handle hl =>
    (Heap.live_add hs.heap hs.capacity hr object handle).mpr (Or.inr hl)
  have hn := hs.noDangling
  refine ⟨⟨hs.heap.add hr object, by simpa using hs.capacity, ?_⟩, hg⟩
  refine ⟨fun frame hf => (hn.frames frame hf).grow hg, hn.statics.grow hg, ?_⟩
  intro handle found hf r hm
  rw [Heap.get?_add hs.heap hs.capacity hr] at hf
  split at hf
  · rw [Option.some.injEq] at hf
    exact hg r (ho r (hf ▸ hm))
  · exact hg r (hn.objects handle found hf r hm)

/-- A changed object may refer to live objects. -/
theorem Sound.modify {m : Machine} (hs : m.Sound) (handle : Handle) {f : Object → Object}
    (hf : ∀ object, m.heap.get? handle = some object → ∀ r ∈ (f object).references, m.heap.Live r) :
    { m with heap := m.heap.modify handle f }.Sound ∧
      m.Grows { m with heap := m.heap.modify handle f } := by
  have hg : m.Grows { m with heap := m.heap.modify handle f } := fun other hl =>
    (Heap.live_modify m.heap handle other f).mpr hl
  have hn := hs.noDangling
  refine ⟨⟨hs.heap.modify handle f, hs.capacity, ?_⟩, hg⟩
  refine ⟨fun frame hm => (hn.frames frame hm).grow hg, hn.statics.grow hg, ?_⟩
  intro other found ho r hm
  rw [Heap.get?_modify] at ho
  split at ho
  · obtain ⟨object, hobject, rfl⟩ := Option.map_eq_some_iff.mp ho
    exact hg r (hf object hobject r hm)
  · exact hg r (hn.objects other found ho r hm)

/-- A sound machine stays sound when a static field gets a live reference. -/
theorem Sound.setStatic {m : Machine} (hs : m.Sound) (type : TypeId) (name : String) {v : Value}
    (hv : m.Holds [v]) : { m with statics := m.statics.set type name v }.Sound := by
  refine ⟨hs.heap, hs.capacity, ⟨hs.noDangling.frames, ?_, hs.noDangling.objects⟩⟩
  intro handle hm
  simp only [Statics.values, Statics.set, List.map_cons, List.mem_cons, List.mem_map,
    List.mem_filter] at hm
  rcases hm with rfl | ⟨entry, ⟨hentry, _⟩, he⟩
  · exact hv handle List.mem_cons_self
  · exact hs.noDangling.statics handle (List.mem_map.mpr ⟨entry, hentry, he⟩)

end Machine

/-! ## Values of changed frames -/

namespace Frame

/-- A frame refers to what is pushed. -/
theorem values_push (frame : Frame) (v : Value) : (frame.push v).values = v :: frame.values := rfl

/-- A value popped and the frame without it. -/
theorem pop?_eq_some {frame rest : Frame} {v : Value} (h : frame.pop? = some (v, rest)) :
    frame = rest.push v := by
  unfold pop? at h
  split at h
  · cases h
  · rename_i he
    cases h
    cases frame
    simp_all [push]

end Frame

namespace Machine

/-- Dropping values from the evaluation stack keeps the values of a frame good. -/
theorem Holds.drop {m : Machine} {frame : Frame} (h : m.Holds frame.values) (count : Nat) :
    m.Holds { frame with stack := frame.stack.drop count }.values := by
  refine h.backed (Backed.of_subset fun v hv => ?_)
  simp only [Frame.values, List.mem_append] at hv ⊢
  exact hv.imp_left (Or.imp_left List.mem_of_mem_drop)

/-- The values on the stack of a good frame are good. -/
theorem Holds.stack {m : Machine} {frame : Frame} (h : m.Holds frame.values) :
    m.Holds frame.stack :=
  h.backed (Backed.of_subset fun v hv => by simp [Frame.values, hv])

end Machine

namespace Exec

open Machine

private theorem safely_query {α : Type} {held : List Value} {given : α → List Value}
    {f : Machine → Except Fault α} (h : Asks held f given) {m : Machine} (hs : m.Sound)
    (hh : m.Holds held) : m.Safely given (query f m) := by
  have ha := h m hs.noDangling hh
  rw [query_apply]
  cases hf : f m with
  | ok a => exact ⟨hs, .refl m, by rwa [hf] at ha⟩
  | error fault => exact ⟨hs, .refl m, by rwa [hf] at ha⟩

private theorem safely_bind {α β : Type} {x : Exec α} {f : α → Exec β} {given : α → List Value}
    {more : β → List Value} {m : Machine} (hx : m.Safely given (x m))
    (hf : ∀ a m', m'.Sound → m.Grows m' → m'.Holds (given a) → m'.Safely more (f a m')) :
    m.Safely more ((x >>= f) m) := by
  cases hxm : x m with
  | error fault m' =>
    rw [hxm] at hx
    rwa [bind_of_error f hxm]
  | ok a m' =>
    rw [hxm] at hx
    obtain ⟨hs, hg, hv⟩ := hx
    have hfa := hf a m' hs hg hv
    rw [bind_of_ok f hxm]
    cases hout : f a m' with
    | ok b m'' =>
      rw [hout] at hfa
      exact ⟨hfa.1, hg.trans hfa.2.1, hfa.2.2⟩
    | error fault m'' =>
      rw [hout] at hfa
      exact ⟨hfa.1, hg.trans hfa.2.1, hfa.2.2⟩

/-- A change of the running frame that keeps its values good ends safely. -/
private theorem safely_modifyTop {m : Machine} (hs : m.Sound) {f : Frame → Frame}
    (hf : ∀ frame, m.Holds frame.values → m.Holds (f frame).values) :
    m.Safely noValues (.ok () { m with calls := m.calls.modifyTop f }) :=
  ⟨hs.modifyTop fun frame ht => hf frame (hs.noDangling.top ht), .refl m, holds_nil _⟩

private theorem safely_pop {m : Machine} (hs : m.Sound) :
    m.Safely (fun v => [v]) (Exec.pop m) := by
  unfold Exec.pop
  cases hp : m.calls.top?.bind Frame.pop? with
  | none => exact ⟨hs, .refl m, by simp [Fault.IsMissing]⟩
  | some popped =>
    obtain ⟨v, rest⟩ := popped
    obtain ⟨frame, ht, hframe⟩ := Option.bind_eq_some_iff.mp hp
    have hvalues := hs.noDangling.top ht
    rw [Frame.pop?_eq_some hframe, Frame.values_push, holds_cons] at hvalues
    exact ⟨hs.modifyTop fun _ _ => hvalues.2, .refl m, hvalues.1⟩

private theorem safely_takeTop {m : Machine} (hs : m.Sound) (count : Nat) :
    m.Safely id (Exec.takeTop count m) := by
  unfold Exec.takeTop
  cases ht : m.calls.top? with
  | none =>
    by_cases hc : count = 0
    · simp only [hc, if_true]
      exact ⟨hs, .refl m, holds_nil m⟩
    · simp only [hc, if_false]
      exact ⟨hs, .refl m, by simp [Fault.IsMissing]⟩
  | some frame =>
    have hvalues := hs.noDangling.top ht
    dsimp only
    split
    · exact ⟨hs, .refl m, by simp [Fault.IsMissing]⟩
    · refine ⟨hs.modifyTop fun top htop => (hs.noDangling.top htop).drop count, .refl m, ?_⟩
      exact hvalues.stack.backed (Backed.of_subset (List.take_subset _ _))

private theorem safely_push {m : Machine} (hs : m.Sound) {v : Value} (hv : m.Holds [v]) :
    m.Safely noValues (Exec.push v m) := by
  unfold Exec.push
  split
  · exact ⟨hs, .refl m, by simp [Fault.IsMissing]⟩
  · apply safely_modifyTop hs
    intro frame hf
    rw [Frame.values_push]
    exact holds_cons.mpr ⟨hv, hf⟩

private theorem safely_insertBeneath {m : Machine} (hs : m.Sound) {v : Value} (hv : m.Holds [v])
    (depth : Nat) (method : String) : m.Safely noValues (Exec.insertBeneath depth v method m) := by
  unfold Exec.insertBeneath
  split
  · exact ⟨hs, .refl m, by simp [Fault.IsMissing]⟩
  · split
    · exact ⟨hs, .refl m, by simp [Fault.IsMissing]⟩
    · apply safely_modifyTop hs
      intro frame hf
      refine (holds_append.mpr ⟨hv, hf⟩).backed (Backed.of_subset fun w hw => ?_)
      simp only [Frame.values, List.mem_append, List.mem_cons] at hw ⊢
      rcases hw with ((hw | rfl | hw) | hw) | hw
      · exact Or.inr (Or.inl (Or.inl (List.mem_of_mem_take hw)))
      · exact Or.inl (Or.inl rfl)
      · exact Or.inr (Or.inl (Or.inl (List.mem_of_mem_drop hw)))
      · exact Or.inr (Or.inl (Or.inr hw))
      · exact Or.inr (Or.inr hw)

private theorem safely_store {m : Machine} (hs : m.Sound) {object : Object}
    (ho : ∀ r ∈ object.references, m.heap.Live r) :
    m.Safely (fun handle => [.ref handle]) (Exec.store object m) := by
  unfold Exec.store
  split
  · exact ⟨hs, .refl m, by simp [Fault.IsMissing]⟩
  · rename_i hr
    have hroom : m.heap.isFull = false := by simpa using hr
    obtain ⟨hsound, hgrows⟩ := hs.add hroom ho
    refine ⟨hsound, hgrows, holds_ref.mpr ?_⟩
    exact (Heap.live_add hs.heap hs.capacity hroom object _).mpr (Or.inl rfl)

private theorem safely_writeFile {m : Machine} (hs : m.Sound) (path text : String) :
    m.Safely noValues (Exec.writeFile path text m) := by
  unfold Exec.writeFile
  split
  · exact ⟨hs.elsewhere rfl rfl rfl, .refl m, holds_nil _⟩
  · exact ⟨hs, .refl m, by simp [Fault.IsMissing]⟩

/-- A composed computation on a sound machine that holds its values ends safely. -/
theorem Composed.safely {held : List Value} {α : Type} {x : Exec α} {given : α → List Value}
    (h : Composed held x given) {m : Machine} (hs : m.Sound) (hh : m.Holds held) :
    m.Safely given (x m) := by
  induction h generalizing m with
  | done a hb => exact ⟨hs, .refl m, hh.backed hb⟩
  | fault fault hf => exact ⟨hs, .refl m, hf⟩
  | query hq => exact safely_query hq hs hh
  | bind _ _ ihx ihf =>
    refine safely_bind (ihx hs hh) fun a m' hs' hg hv => ?_
    exact ihf a hs' (holds_append.mpr ⟨hv, hh.grow hg⟩)
  | @weaken _ _ x _ _ _ hb ih =>
    have hx := ih hs hh
    cases hout : x m with
    | ok a m' =>
      rw [hout] at hx
      exact ⟨hx.1, hx.2.1, hx.2.2.backed (hb a)⟩
    | error fault m' => rwa [hout] at hx
  | pop => exact safely_pop hs
  | takeTop count => exact safely_takeTop hs count
  | push hv => exact safely_push hs (hh.backed hv)
  | insertBeneath depth method hv => exact safely_insertBeneath hs (hh.backed hv) depth method
  | modifyTop hf =>
    exact safely_modifyTop hs fun frame hv => (holds_append.mpr ⟨hh, hv⟩).backed (hf frame)
  | store ho => exact safely_store hs fun r hr => hh r (ho r hr)
  | modifyObject handle hf =>
    have hm := hs.modify handle fun object hobject r hr =>
      (hf object r hr).elim (hs.noDangling.objects handle object hobject r) (hh r)
    exact ⟨hm.1, hm.2, holds_nil _⟩
  | setStatic type name hv => exact ⟨hs.setStatic type name (hh.backed hv), .refl m, holds_nil _⟩
  | write text => exact ⟨hs.elsewhere rfl rfl rfl, .refl m, holds_nil _⟩
  | writeFile path text => exact safely_writeFile hs path text

end Exec

end ManagedCode
