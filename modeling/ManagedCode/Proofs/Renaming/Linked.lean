import ManagedCode.Proofs.Renaming.Lockstep

/-!
# Machines that differ in their handles

Two linked machines differ in the names of their objects only, and in objects that neither of them
can reach. The second has at most as many live objects as the first, so it has room whenever the
first has. An object that both store gets a new handle on either side, and the renaming gets this
pair; it stays a renaming because a handle that is given out names no live object before.
-/

namespace ManagedCode

/-! ## Naming a new object -/

/-- The renaming with one more name, for a handle without one. -/
def Renaming.extend (ρ : Renaming) {handle other : Handle} (h : ρ handle = none)
    (h' : ρ.symm other = none) : Renaming where
  toFun x := if x = handle then some other else ρ x
  invFun y := if y = other then some handle else ρ.symm y
  inv x y := by
    have hold : ρ.symm y = some x ↔ ρ x = some y := ρ.eq_some_iff
    by_cases hx : x = handle
    · by_cases hy : y = other
      · rw [if_pos hx, if_pos hy, hx, hy]
        simp
      · rw [if_pos hx, if_neg hy, hold, hx, h]
        simp [Ne.symm hy]
    · by_cases hy : y = other
      · rw [if_neg hx, if_pos hy, ← hold, hy, h']
        simp [Ne.symm hx]
      · rw [if_neg hx, if_neg hy]
        exact hold

section

variable {ρ : Renaming} {handle other : Handle} (h : ρ handle = none) (h' : ρ.symm other = none)

/-- An extended renaming gives the new object its other name. -/
theorem Renaming.mem_extend : other ∈ ρ.extend h h' handle :=
  if_pos rfl

/-- An extended renaming keeps all names. -/
theorem Renaming.le_extend : ρ ≤ ρ.extend h h' := by
  intro x y hxy
  have hx : x ≠ handle := by
    rintro rfl
    rw [h] at hxy
    cases hxy
  exact (if_neg hx).trans hxy

/-- A pair of the extended renaming is the new one or an old one, of other handles. -/
theorem Renaming.mem_extend_cases {x y : Handle} (hxy : y ∈ ρ.extend h h' x) :
    x = handle ∧ y = other ∨ x ≠ handle ∧ y ≠ other ∧ y ∈ ρ x := by
  by_cases hx : x = handle
  · subst hx
    exact Or.inl ⟨rfl, Option.mem_unique hxy (mem_extend h h')⟩
  · have hold : y ∈ ρ x := (if_neg hx).symm.trans hxy
    refine Or.inr ⟨hx, ?_, hold⟩
    rintro rfl
    rw [← ρ.mem_iff_mem, h'] at hold
    cases hold

end

namespace Machine

/-- The machines are equal up to the names of their objects, as far as these have names. -/
structure Linked (ρ : Renaming) (m m' : Machine) : Prop where
  catalog : m.catalog = m'.catalog
  core : m.core = m'.core
  options : m.options = m'.options
  output : m.output = m'.output
  files : m.files = m'.files
  maxDepth : m.calls.maxDepth = m'.calls.maxDepth
  frames : List.Forall₂ (Frame.Alike ρ) m.calls.frames m'.calls.frames
  statics : m.statics.Alike ρ m'.statics
  objects : m.heap.Alike ρ m'.heap
  heap : m.heap.WellFormed
  heap' : m'.heap.WellFormed
  capacity : m.heap.capacity ≤ 2 ^ 32
  capacity_eq : m'.heap.capacity = m.heap.capacity
  /-- The second heap has room whenever the first one has. -/
  live_le : m'.heap.live ≤ m.heap.live

namespace Linked

variable {ρ : Renaming} {m m' : Machine}

/-- Linked machines mirror each other. -/
theorem mirrors (h : Linked ρ m m') : m.Mirrors ρ m' where
  catalog := .of_eq h.catalog
  core := h.core
  files := h.files
  statics := h.statics
  top := rel_head? h.frames
  objects handle other hh := by
    obtain ⟨a, b, ha, hb, hab⟩ := h.objects handle other hh
    rw [ha, hb]
    exact .some hab

/-! ## Frames -/

/-- Linked machines stay so when their active frames are changed alike. -/
theorem modifyTop {f g : Frame → Frame} (h : Linked ρ m m')
    (hfg : ∀ a b, m.calls.top? = some a → m'.calls.top? = some b → (f a).Alike ρ (g b)) :
    Linked ρ { m with calls := m.calls.modifyTop f } { m' with calls := m'.calls.modifyTop g } := by
  refine { h with maxDepth := ?_, frames := ?_ }
  · simpa using h.maxDepth
  · have hframes := h.frames
    simp only [CallStack.modifyTop]
    generalize hx : m.calls.frames = x, hy : m'.calls.frames = y at hframes
    cases hframes with
    | nil => simp [hx, hy]
    | @cons a b _ _ _ hrest =>
      have ht : m.calls.top? = some a := by rw [CallStack.top?, hx, List.head?_cons]
      have ht' : m'.calls.top? = some b := by rw [CallStack.top?, hy, List.head?_cons]
      exact .cons (hfg a b ht ht') hrest

/-- On linked machines calls are nested equally deep. -/
theorem depth_eq (h : Linked ρ m m') : m.calls.depth = m'.calls.depth := h.frames.length_eq

/-- Linked machines stay so when they enter a method with alike arguments. -/
theorem withFrame {vs ws : List Value} (id : MethodId) (h : Linked ρ m m')
    (hv : Values.Alike ρ vs ws) : Linked ρ (m.withFrame id vs) (m'.withFrame id ws) := by
  refine { h with frames := .cons ?_ h.frames }
  refine ⟨rfl, .nil, ?_, hv⟩
  simp only [Frame.start, h.options]
  refine alike_of_numbers fun v hv => ?_
  rw [Array.toList_replicate, List.mem_replicate] at hv
  rw [hv.2]
  rfl

/-- Linked machines stay so when they leave a frame. -/
theorem exitFrame (h : Linked ρ m m') : Linked ρ m.exitFrame m'.exitFrame := by
  have hframes := h.frames
  unfold Machine.exitFrame CallStack.pop?
  generalize hx : m.calls.frames = x, hy : m'.calls.frames = y at hframes
  cases hframes with
  | nil => exact h
  | cons _ hrest => exact { h with frames := hrest }

/-! ## Objects -/

/-- A handle that names no live object has no name, and is none. -/
theorem unnamed (h : Linked ρ m m') {handle : Handle} (hn : ¬ m.heap.Live handle) :
    ρ handle = none := by
  rw [Option.eq_none_iff_forall_not_mem]
  intro other hh
  obtain ⟨a, _, ha, _⟩ := h.objects handle other hh
  exact hn (Heap.live_of_get? ha)

/-- What is not live on the second machine is no other name. -/
theorem unnamed' (h : Linked ρ m m') {other : Handle} (hn : ¬ m'.heap.Live other) :
    ρ.symm other = none := by
  rw [Option.eq_none_iff_forall_not_mem]
  intro handle hh
  obtain ⟨_, b, _, hb, _⟩ := h.objects handle other (ρ.mem_iff_mem.mp hh)
  exact hn (Heap.live_of_get? hb)

/-- Where the first heap has room, the second one has too. -/
theorem isFull_eq_false (h : Linked ρ m m') (hr : m.heap.isFull = false) :
    m'.heap.isFull = false := by
  have hroom := Heap.WellFormed.live_lt_of_room hr
  have hlive := h.live_le
  have hcapacity := h.capacity_eq
  simp only [Heap.isFull, decide_eq_false_iff_not]
  omega

/-- Both machines store an object, and it gets a name. -/
theorem add (h : Linked ρ m m') (hr : m.heap.isFull = false) {a b : Object} (hab : a.Alike ρ b) :
    ∃ ρ', ρ ≤ ρ' ∧ Named ρ' (m.heap.add a).1 (m'.heap.add b).1 ∧
      Linked ρ' { m with heap := (m.heap.add a).2 } { m' with heap := (m'.heap.add b).2 } := by
  have hr' := h.isFull_eq_false hr
  have hc' : m'.heap.capacity ≤ 2 ^ 32 := h.capacity_eq ▸ h.capacity
  have hnew := h.unnamed (Heap.not_live_add h.heap h.capacity hr a)
  have hnew' := h.unnamed' (Heap.not_live_add h.heap' hc' hr' b)
  have hle := Renaming.le_extend hnew hnew'
  refine ⟨ρ.extend hnew hnew', hle, Renaming.mem_extend hnew hnew', ?_⟩
  refine { h with
    frames := h.frames.imp fun _ _ => Frame.Alike.mono hle
    statics := h.statics.mono hle
    objects := fun x y hxy => ?_
    heap := h.heap.add hr a
    heap' := h.heap'.add hr' b
    capacity := by simpa using h.capacity
    capacity_eq := by simpa using h.capacity_eq
    live_le := ?_ }
  · -- Storing leaves every other handle alone, on either side.
    simp only [Heap.get?_add h.heap h.capacity hr, Heap.get?_add h.heap' hc' hr']
    rcases Renaming.mem_extend_cases hnew hnew' hxy with ⟨rfl, rfl⟩ | ⟨hx, hy, hold⟩
    · exact ⟨a, b, if_pos rfl, if_pos rfl, hab.mono hle⟩
    · obtain ⟨p, q, hp, hq, hpq⟩ := h.objects x y hold
      exact ⟨p, q, (if_neg hx).trans hp, (if_neg hy).trans hq, hpq.mono hle⟩
  · have hlive := h.live_le
    simp only [Heap.live_field_add]
    omega

/-- Both machines change an object that has a name. -/
theorem modify {handle other : Handle} {f g : Object → Object} (h : Linked ρ m m')
    (hh : Named ρ handle other) (hfg : ∀ a b, a.Alike ρ b → (f a).Alike ρ (g b)) :
    Linked ρ { m with heap := m.heap.modify handle f }
      { m' with heap := m'.heap.modify other g } := by
  refine { h with
    objects := fun x y hxy => ?_
    heap := h.heap.modify handle f
    heap' := h.heap'.modify other g }
  obtain ⟨a, b, ha, hb, hab⟩ := h.objects x y hxy
  simp only [Heap.get?_modify]
  by_cases hx : x = handle
  · subst hx
    obtain rfl := Option.mem_unique hxy hh
    simp only [if_true, ha, hb, Option.map_some]
    exact ⟨f a, g b, rfl, rfl, hfg a b hab⟩
  · have hy : y ≠ other := by
      rintro rfl
      exact hx (ρ.inj hxy hh)
    simp only [hx, hy, if_false]
    exact ⟨a, b, ha, hb, hab⟩

/-! ## Runs -/

/-- Linked machines run in lockstep until the first one has no room for an object. -/
theorem lockstep : Lockstep (fun fault => ∃ capacity, fault = .heap (.full capacity)) Linked where
  mirrors := mirrors
  modifyTop hm h := hm.modifyTop fun a b ha hb => (h a b ha hb).1
  store {ρ m m' a b} hm h := by
    unfold Exec.store
    cases hf : m.heap.isFull with
    | true =>
      simp only [if_true]
      exact .excused ⟨_, rfl⟩
    | false =>
      obtain ⟨ρ', hle, hnamed, hlinked⟩ := hm.add hf h
      simp only [hm.isFull_eq_false hf, Bool.false_eq_true, if_false]
      exact .ok hle hlinked hnamed
  checkLength length hm := by
    refine .query hm ?_
    rw [checkArrayLength, checkArrayLength, arrayLimit, arrayLimit, hm.options]
    refine .same fun fault hf => ?_
    split at hf
    · cases hf
      rfl
    · split at hf <;> cases hf
      rfl
  modifyObject := modify
  setStatic type name hm h := { hm with statics := hm.statics.set type name h }
  write text hm := { hm with output := congrArg (· ++ text) hm.output }
  setFiles files hm := { hm with files := rfl }
  enter id hm h := by
    rw [enter_apply, enter_apply, hm.depth_eq, hm.maxDepth]
    split
    · exact .fault le_rfl hm (.same rfl)
    · exact .ok le_rfl (hm.withFrame id h) rfl
  exitFrame _ hm _ _ := hm.exitFrame
  popLastExited hm _ _ := { hm with }
  catalog hm := hm.catalog
  argumentOrder hm := congrArg Options.argumentOrder hm.options

end Linked

end Machine

end ManagedCode
