import Mathlib.Order.MinMax
import ManagedCode.Proofs.Renaming.Twins

/-!
# Raising the limits

The limits of a machine bound how deep calls nest, how many objects live and how long arrays are. A
machine with greater limits takes the same steps as the given one, with every object under the same
handle, until the given one meets a limit and faults. No computation recovers from a fault, so a run
that ends in any other way ends in the same way under greater limits.
-/

namespace ManagedCode

/-! ## Limits -/

/-- Whether the fault says that a limit of the machine was met. -/
def Fault.isLimit : Fault → Bool
  | .stackOverflow .. | .heap (.full _) | .heap (.arrayTooLarge ..) => true
  | _ => false

namespace Machine

/-- The second machine is equal to the first one, except that its limits may be greater. -/
structure Roomier (m m' : Machine) : Prop where
  catalog : m.catalog = m'.catalog
  core : m.core = m'.core
  statics : m.statics = m'.statics
  output : m.output = m'.output
  files : m.files = m'.files
  frames : m.calls.frames = m'.calls.frames
  lastExited : m.calls.lastExited = m'.calls.lastExited
  entries : m.heap.entries = m'.heap.entries
  free : m.heap.free = m'.heap.free
  live : m.heap.live = m'.heap.live
  locals : m.options.locals = m'.options.locals
  argumentOrder : m.options.argumentOrder = m'.options.argumentOrder
  maxCallDepth : m.options.maxCallDepth ≤ m'.options.maxCallDepth
  heapCapacity : m.options.heapCapacity ≤ m'.options.heapCapacity
  maxArrayLength : m.options.maxArrayLength ≤ m'.options.maxArrayLength
  maxDepth : m.calls.maxDepth ≤ m'.calls.maxDepth
  capacity : m.heap.capacity ≤ m'.heap.capacity

/-- New machines with the same conventions differ in their limits only. -/
theorem roomier_new {options options' : Options} (files : Files)
    (hlocals : options.locals = options'.locals)
    (horder : options.argumentOrder = options'.argumentOrder)
    (hdepth : options.maxCallDepth ≤ options'.maxCallDepth)
    (hcapacity : options.heapCapacity ≤ options'.heapCapacity)
    (hlength : options.maxArrayLength ≤ options'.maxArrayLength) :
    (Machine.new options files).Roomier (Machine.new options' files) where
  catalog := rfl
  core := rfl
  statics := rfl
  output := rfl
  files := rfl
  frames := rfl
  lastExited := rfl
  entries := rfl
  free := rfl
  live := rfl
  locals := hlocals
  argumentOrder := horder
  maxCallDepth := hdepth
  heapCapacity := hcapacity
  maxArrayLength := hlength
  maxDepth := hdepth
  capacity := hcapacity

/-- The second machine has greater limits, and every object has the same handle on both. -/
def Matched (ρ : Renaming) (m m' : Machine) : Prop := ρ = PEquiv.refl Handle ∧ m.Roomier m'

namespace Roomier

variable {m m' : Machine}

/-- The same frame is active on both machines. -/
theorem top_eq (h : m.Roomier m') : m.calls.top? = m'.calls.top? :=
  congrArg List.head? h.frames

/-- Calls are nested equally deep. -/
theorem depth_eq (h : m.Roomier m') : m.calls.depth = m'.calls.depth :=
  congrArg List.length h.frames

/-- The same objects are live under the same handles. -/
theorem get?_eq (h : m.Roomier m') (handle : Handle) :
    m.heap.get? handle = m'.heap.get? handle := by
  rw [Heap.get?, Heap.get?, Heap.entry?, Heap.entry?, h.entries]

/-- A machine with greater limits mirrors the other one without any renaming. -/
theorem mirrors (h : m.Roomier m') : m.Mirrors (PEquiv.refl Handle) m' where
  catalog := .of_eq h.catalog
  core := h.core
  files := h.files
  statics := h.statics ▸ Statics.alike_refl m.statics
  top := by
    rw [h.top_eq]
    cases m'.calls.top? with
    | none => exact .none
    | some frame => exact .some ((Frame.alike_refl_iff rfl).mpr rfl)
  objects handle other hh := by
    obtain rfl := Option.some.inj hh
    rw [h.get?_eq]
    cases m'.heap.get? handle with
    | none => exact .none
    | some object => exact .some (Object.alike_refl_iff.mpr rfl)

/-! ## Changes of both machines -/

/-- The active frames may be changed alike. -/
theorem modifyTop {f g : Frame → Frame} (h : m.Roomier m')
    (hfg : ∀ a, m.calls.top? = some a → f a = g a) :
    Roomier { m with calls := m.calls.modifyTop f } { m' with calls := m'.calls.modifyTop g } := by
  have hframes : (m.calls.modifyTop f).frames = (m'.calls.modifyTop g).frames := by
    have ht := hfg
    unfold CallStack.top? at ht
    unfold CallStack.modifyTop
    rw [← h.frames]
    cases hm : m.calls.frames with
    | nil => rw [hm, ← h.frames, hm]
    | cons frame rest =>
      rw [hm] at ht
      exact congrArg (· :: rest) (ht frame rfl)
  exact { h with
    frames := hframes
    lastExited := by simpa using h.lastExited
    maxDepth := by simpa using h.maxDepth }

/-- The active frames may be left. -/
theorem exitFrame (h : m.Roomier m') : m.exitFrame.Roomier m'.exitFrame := by
  unfold Machine.exitFrame CallStack.pop?
  rw [← h.frames]
  cases m.calls.frames with
  | nil => exact h
  | cons frame rest => exact { h with frames := rfl, lastExited := rfl }

/-- The same method may be entered on both machines. -/
theorem withFrame (id : MethodId) (values : List Value) (h : m.Roomier m') :
    (m.withFrame id values).Roomier (m'.withFrame id values) := by
  refine { h with frames := ?_ }
  simp only [Machine.withFrame, h.top_eq, h.locals, h.frames]

/-- Where the smaller heap has room, the greater one has too. -/
theorem isFull_eq_false (h : m.Roomier m') (hr : m.heap.isFull = false) :
    m'.heap.isFull = false := by
  have hlive := h.live
  have hcapacity := h.capacity
  simp only [Heap.isFull, decide_eq_false_iff_not] at hr ⊢
  omega

/-- An object gets the same handle on both heaps. -/
theorem add_handle_eq (h : m.Roomier m') (object : Object) :
    (m.heap.add object).1 = (m'.heap.add object).1 := by
  unfold Heap.add
  rw [h.free, h.entries]
  split <;> rfl

/-- The same object may be added to both heaps. -/
theorem add (h : m.Roomier m') (object : Object) :
    Roomier { m with heap := (m.heap.add object).2 }
      { m' with heap := (m'.heap.add object).2 } := by
  unfold Heap.add
  rw [h.free, h.entries, h.live]
  split <;> exact { h with entries := rfl, free := rfl, live := rfl }

/-- The same object may be changed alike in both heaps. -/
theorem modify (h : m.Roomier m') (handle : Handle) (f : Object → Object) :
    Roomier { m with heap := m.heap.modify handle f }
      { m' with heap := m'.heap.modify handle f } := by
  refine { h with entries := ?_ }
  rw [Heap.modify, Heap.modify, h.entries]

/-- Arrays may be at least as long. -/
theorem arrayLimit_le (h : m.Roomier m') : m.arrayLimit ≤ m'.arrayLimit :=
  min_le_min_right _ h.maxArrayLength

/-! ## Runs -/

/-- A machine and one with greater limits run in lockstep until the first one meets a limit. -/
theorem lockstep : Lockstep (·.isLimit = true) Matched where
  mirrors hm := hm.1 ▸ hm.2.mirrors
  modifyTop := by
    rintro _ m m' f g ⟨rfl, hm⟩ h
    refine ⟨rfl, hm.modifyTop fun frame ht => ?_⟩
    obtain ⟨halike, hf, hg⟩ := h frame frame ht (hm.top_eq ▸ ht)
    exact (Frame.alike_refl_iff (hf.trans hg.symm)).mp halike
  store := by
    rintro _ m m' a b ⟨rfl, hm⟩ h
    obtain rfl := Object.alike_refl_iff.mp h
    unfold Exec.store
    cases hf : m.heap.isFull with
    | true =>
      simp only [if_true]
      exact .excused rfl
    | false =>
      -- Which entry is used next does not depend on the capacity.
      simp only [hm.isFull_eq_false hf, Bool.false_eq_true, if_false]
      refine .ok le_rfl ⟨rfl, hm.add a⟩ ?_
      rw [hm.add_handle_eq a]
      exact rfl
  checkLength := by
    rintro _ m m' length ⟨rfl, hm⟩
    have hlimit := hm.arrayLimit_le
    rw [Exec.query_apply, Exec.query_apply, checkArrayLength, checkArrayLength]
    by_cases hneg : length < 0
    · rw [if_pos hneg, if_pos hneg]
      exact .fault le_rfl ⟨rfl, hm⟩ (.same rfl)
    · rw [if_neg hneg, if_neg hneg]
      by_cases hle : length ≤ m.arrayLimit
      · have hle' : length ≤ m'.arrayLimit := by omega
        rw [if_pos hle, if_pos hle']
        exact .ok le_rfl ⟨rfl, hm⟩ rfl
      · rw [if_neg hle]
        exact .excused rfl
  modifyObject := by
    rintro _ m m' handle other f g ⟨rfl, hm⟩ hh h
    obtain rfl := Option.some.inj hh
    -- Each object is alike to itself, so both machines make the same change.
    obtain rfl : f = g := funext fun a =>
      Object.alike_refl_iff.mp (h a a (Object.alike_refl_iff.mpr rfl))
    exact ⟨rfl, hm.modify handle f⟩
  setStatic := by
    rintro _ m m' v w type name ⟨rfl, hm⟩ h
    obtain rfl := Value.alike_refl_iff.mp h
    exact ⟨rfl, { hm with statics := congrArg (·.set type name v) hm.statics }⟩
  write text hm := ⟨hm.1, { hm.2 with output := congrArg (· ++ text) hm.2.output }⟩
  setFiles files hm := ⟨hm.1, { hm.2 with files := rfl }⟩
  enter := by
    rintro _ m m' vs ws id ⟨rfl, hm⟩ h
    obtain rfl := Values.alike_refl_iff.mp h
    have hdepth := hm.maxDepth
    rw [enter_apply, enter_apply, ← hm.depth_eq]
    by_cases hfull : m.calls.maxDepth ≤ m.calls.depth
    · rw [if_pos hfull]
      exact .excused rfl
    · have hroom : ¬ m'.calls.maxDepth ≤ m.calls.depth := by omega
      rw [if_neg hfull, if_neg hroom]
      exact .ok le_rfl ⟨rfl, hm.withFrame id vs⟩ rfl
  exitFrame _ hm _ _ := ⟨hm.1, hm.2.exitFrame⟩
  popLastExited := by
    rintro ρ m m' frame frame' v w ⟨rfl, hm⟩ hx hy
    -- The frames with the value are equal, so the frames without it are.
    have hpushed : frame.push v = frame'.push w :=
      Option.some.inj (hx.symm.trans (hm.lastExited.trans hy))
    have hpopped := congrArg Frame.pop? hpushed
    obtain rfl : frame = frame' := congrArg Prod.snd (Option.some.inj hpopped)
    exact ⟨rfl, { hm with lastExited := rfl }⟩
  argumentOrder hm := hm.2.argumentOrder
  catalog hm := hm.2.catalog

end Roomier

end Machine

/-! ## Outcomes -/

/-- The outcomes are the same result or the same fault, on machines of which the second is equal to
the first except that its limits may be greater. -/
inductive Outcome.Roomier {α : Type} : Outcome α → Outcome α → Prop
  | ok (a : α) {m m' : Machine} (h : m.Roomier m') : Roomier (.ok a m) (.ok a m')
  | error (fault : Fault) {m m' : Machine} (h : m.Roomier m') :
      Roomier (.error fault m) (.error fault m')

/-- Whether the outcome is anything but a fault that says that a limit was met. -/
def Outcome.isWithinLimits {α : Type} : Outcome α → Bool
  | .ok .. => true
  | .error fault _ => !fault.isLimit

/-- A run that did not meet a limit is the same with greater limits. -/
private theorem roomier_of_followed {outcome : Outcome (Option Value)}
    {second : Option (Outcome (Option Value))} (hwithin : outcome.isWithinLimits = true)
    (h : Followed (·.isLimit = true) Machine.Matched (PEquiv.refl Handle)
      (fun ρ => Option.Rel (Value.Alike ρ)) outcome second) :
    ∃ outcome', second = some outcome' ∧ outcome.Roomier outcome' := by
  cases h with
  | excused h =>
    rw [Outcome.isWithinLimits, h] at hwithin
    cases hwithin
  | ok _ hm hr =>
    obtain ⟨rfl, hroomier⟩ := hm
    obtain rfl := Value.option_alike_refl_iff.mp hr
    exact ⟨_, rfl, .ok _ hroomier⟩
  | fault _ hm hf =>
    obtain ⟨rfl, hroomier⟩ := hm
    obtain rfl := Fault.eq_of_alike_refl hf
    exact ⟨_, rfl, .error _ hroomier⟩

namespace Machine

variable {m m' : Machine}

/-- Raising the limits never changes a call that did not meet them. Let the second machine be equal
to the first one, except that calls may nest deeper, more objects may live and arrays may be longer.
A call that ends on the first machine with a result, or with a fault that is not of a limit, ends on
the second one with the same result or fault, and the machines are then still equal except for their
limits: in the catalog, the objects and their handles, the static fields, the console output, the
files, the frames and the frame that was left last. -/
theorem call_same_with_greater_limits (h : m.Roomier m') (id : MethodId) (arguments : List Value)
    {fuel : Nat} {outcome : Outcome (Option Value)}
    (hcall : m.call fuel id arguments = some outcome) (hwithin : outcome.isWithinLimits = true) :
    ∃ outcome', m'.call fuel id arguments = some outcome' ∧ outcome.Roomier outcome' :=
  roomier_of_followed hwithin
    (Roomier.lockstep.call ⟨rfl, h⟩ (Values.alike_refl_iff.mpr rfl) hcall)

/-- A joined text takes the only place in the heap. With more room it gets the same handle, and the
heap is not full afterwards. -/
theorem call_same_with_greater_limits_filled :
    let small := Machine.new { heapCapacity := 1 } .empty
    let large := Machine.new {} .empty
    let call (m : Machine) := m.call 0 ⟨3⟩ [.null, .null]
    small.Roomier large ∧
      ∃ outcome outcome', call small = some outcome ∧ outcome.isWithinLimits = true ∧
        call large = some outcome' ∧ outcome.Roomier outcome' ∧
        outcome.machine.heap.isFull = true ∧ outcome'.machine.heap.isFull = false := by
  intro small large call
  have hroomier : small.Roomier large :=
    roomier_new .empty rfl rfl le_rfl (by decide) le_rfl
  have hsmall : (call small).any (fun outcome =>
      outcome.isWithinLimits && outcome.machine.heap.isFull) = true := by
    decide +kernel
  have hlarge : (call large).all (fun outcome => !outcome.machine.heap.isFull) = true := by
    decide +kernel
  obtain ⟨outcome, hcall, hfilled⟩ := (Option.any_eq_true _ _).mp hsmall
  rw [Bool.and_eq_true] at hfilled
  obtain ⟨outcome', hcall', hsame⟩ :=
    call_same_with_greater_limits hroomier ⟨3⟩ [.null, .null] hcall hfilled.1
  have hroom : outcome'.machine.heap.isFull = false := by
    rw [show call large = some outcome' from hcall'] at hlarge
    simpa using hlarge
  exact ⟨hroomier, outcome, outcome', hcall, hfilled.1, hcall', hsame, hfilled.2, hroom⟩

/-- Raising the limits never changes a program that did not meet them. -/
theorem start_same_with_greater_limits (h : m.Roomier m') {fuel : Nat} {texts : List String}
    {outcome : Outcome (Option Value)} (hstart : m.start fuel texts = some outcome)
    (hwithin : outcome.isWithinLimits = true) :
    ∃ outcome', m'.start fuel texts = some outcome' ∧ outcome.Roomier outcome' :=
  roomier_of_followed hwithin (Roomier.lockstep.start ⟨rfl, h⟩ hstart)

end Machine

end ManagedCode
