import ManagedCode.Proofs.Machine.Answers

/-!
# Computations composed of primitives

Everything that an instruction or a native behaviour does is a sequence of a few primitives: asking
the machine something, and changing the running frame, an object, a static field, the console or the
files. `Composed` records such a sequence together with the values it is given on the way, and
admits only steps that store values of these. What every primitive does and sequencing keeps
therefore holds of every instruction and every native behaviour. The first such fact is that no
composed computation reaches the callers of the running method.
-/

namespace ManagedCode

/-- The machine of an outcome. -/
def Outcome.machine {α : Type} : Outcome α → Machine
  | .ok _ m => m
  | .error _ m => m

/-- The result of a call that succeeds. -/
def Outcome.result? {α : Type} : Outcome α → Option α
  | .ok a _ => some a
  | .error .. => none

/-- An outcome with a result is a success. -/
theorem Outcome.eq_ok_of_result? {α : Type} {outcome : Outcome α} {a : α}
    (h : Outcome.result? outcome = some a) : outcome = .ok a (Outcome.machine outcome) := by
  cases outcome with
  | ok b m =>
    cases h
    rfl
  | error fault m => cases h

namespace Exec

/-- A question about held values has a good answer on every machine without dangling references. -/
def Asks {α : Type} (held : List Value) (f : Machine → Except Fault α) (given : α → List Value) :
    Prop :=
  ∀ m : Machine, m.NoDangling → m.Holds held → m.GoodAnswer given (f m)

/-- `x` is a sequence of primitives that stores no references but those it is given. It starts with
the values `held` and its result comes with the values `given`. -/
inductive Composed : (held : List Value) → {α : Type} → Exec α → (given : α → List Value) → Prop
  | done {held : List Value} {α : Type} {given : α → List Value} (a : α)
      (h : Backed held (given a)) : Composed held (pure a) given
  | fault {held : List Value} {α : Type} {given : α → List Value} (fault : Fault)
      (h : ¬ fault.IsMissing) : Composed held (throw fault : Exec α) given
  | query {held : List Value} {α : Type} {given : α → List Value}
      {f : Machine → Except Fault α} (h : Asks held f given) : Composed held (query f) given
  | bind {held : List Value} {α β : Type} {x : Exec α} {f : α → Exec β}
      {given : α → List Value} {more : β → List Value} (hx : Composed held x given)
      (hf : ∀ a, Composed (given a ++ held) (f a) more) : Composed held (x >>= f) more
  | weaken {held : List Value} {α : Type} {x : Exec α} {given fewer : α → List Value}
      (hx : Composed held x given) (hb : ∀ a, Backed (given a) (fewer a)) : Composed held x fewer
  | pop {held : List Value} : Composed held pop fun v => [v]
  | takeTop {held : List Value} (count : Nat) : Composed held (takeTop count) id
  | push {held : List Value} {v : Value} (h : Backed held [v]) : Composed held (push v) noValues
  | insertBeneath {held : List Value} {v : Value} (depth : Nat) (method : String)
      (h : Backed held [v]) : Composed held (insertBeneath depth v method) noValues
  | modifyTop {held : List Value} {f : Frame → Frame}
      (h : ∀ frame, Backed (held ++ frame.values) (f frame).values) :
      Composed held (update fun m => { m with calls := m.calls.modifyTop f }) noValues
  | store {held : List Value} {object : Object}
      (h : ∀ r ∈ object.references, Value.ref r ∈ held) :
      Composed held (store object) fun handle => [.ref handle]
  | modifyObject {held : List Value} {f : Object → Object} (handle : Handle)
      (h : ∀ object, ∀ r ∈ (f object).references, r ∈ object.references ∨ Value.ref r ∈ held) :
      Composed held (modifyObject handle f) noValues
  | setStatic {held : List Value} {v : Value} (type : TypeId) (name : String)
      (h : Backed held [v]) : Composed held (setStatic type name v) noValues
  | write {held : List Value} (text : String) : Composed held (write text) noValues
  | writeFile {held : List Value} (path text : String) :
      Composed held (writeFile path text) noValues

/-- A computation that succeeds hands its result and its state on. -/
theorem bind_of_ok {ε σ α β : Type} {x : EStateM ε σ α} {s s' : σ} {a : α}
    (f : α → EStateM ε σ β) (h : x s = .ok a s') : (x >>= f) s = f a s' := by
  simp only [bind, EStateM.bind, h]

/-- A computation that fails is the end of its sequence. -/
theorem bind_of_error {ε σ α β : Type} {x : EStateM ε σ α} {s s' : σ} {fault : ε}
    (f : α → EStateM ε σ β) (h : x s = .error fault s') : (x >>= f) s = .error fault s' := by
  simp only [bind, EStateM.bind, h]

/-- A question leaves the machine as it is, whatever the answer. -/
theorem query_apply {α : Type} (f : Machine → Except Fault α) (m : Machine) :
    query f m = match f m with
      | .ok a => .ok a m
      | .error fault => .error fault m := rfl

end Exec

/-! ## The callers of the running method -/

namespace CallStack

/-- A changed top frame does not change how deep calls may nest. -/
@[simp] theorem maxDepth_modifyTop (calls : CallStack) (f : Frame → Frame) :
    (calls.modifyTop f).maxDepth = calls.maxDepth := by
  unfold modifyTop
  split <;> rfl

/-- A changed top frame does not change which frame was left last. -/
@[simp] theorem lastExited_modifyTop (calls : CallStack) (f : Frame → Frame) :
    (calls.modifyTop f).lastExited = calls.lastExited := by
  unfold modifyTop
  split <;> rfl

/-- The frames beneath the top one stay. -/
@[simp] theorem tail_modifyTop (calls : CallStack) (f : Frame → Frame) :
    (calls.modifyTop f).frames.tail = calls.frames.tail := by
  unfold modifyTop
  split
  · rfl
  · rename_i h
    rw [h]
    rfl

/-- A changed top frame is still one frame. -/
@[simp] theorem depth_modifyTop (calls : CallStack) (f : Frame → Frame) :
    (calls.modifyTop f).depth = calls.depth := by
  unfold modifyTop depth
  split
  · rfl
  · rename_i h
    rw [h]
    rfl

/-- With a frame on top, it is that frame that changes. -/
theorem frames_modifyTop {calls : CallStack} {frame : Frame} {callers : List Frame}
    {f : Frame → Frame} (h : calls.frames = frame :: callers) :
    (calls.modifyTop f).frames = f frame :: callers := by
  rw [modifyTop, h]

end CallStack

namespace Machine

/-- The second machine differs from the first in the running frame at most, as far as the call
stack, the catalog and the options are concerned. -/
structure SameCallers (m m' : Machine) : Prop where
  /-- The frames of the callers are the same. -/
  callers : m'.calls.frames.tail = m.calls.frames.tail
  /-- No frame was entered or left. -/
  depth : m'.calls.depth = m.calls.depth
  maxDepth : m'.calls.maxDepth = m.calls.maxDepth
  catalog : m'.catalog = m.catalog
  options : m'.options = m.options

/-- A machine has its own callers. -/
theorem SameCallers.refl (m : Machine) : m.SameCallers m := ⟨rfl, rfl, rfl, rfl, rfl⟩

/-- What two changes one after the other both keep is kept. -/
theorem SameCallers.trans {a b c : Machine} (hab : a.SameCallers b) (hbc : b.SameCallers c) :
    a.SameCallers c where
  callers := hbc.callers.trans hab.callers
  depth := hbc.depth.trans hab.depth
  maxDepth := hbc.maxDepth.trans hab.maxDepth
  catalog := hbc.catalog.trans hab.catalog
  options := hbc.options.trans hab.options

/-- A change of the top frame keeps the callers. -/
theorem SameCallers.modifyTop (m : Machine) (f : Frame → Frame) :
    m.SameCallers { m with calls := m.calls.modifyTop f } :=
  ⟨CallStack.tail_modifyTop .., CallStack.depth_modifyTop .., CallStack.maxDepth_modifyTop .., rfl,
    rfl⟩

end Machine

namespace Exec

/-- A composed computation leaves the callers of the running method alone, also when it faults. -/
theorem Composed.sameCallers {held : List Value} {α : Type} {x : Exec α}
    {given : α → List Value} (h : Composed held x given) (m : Machine) :
    m.SameCallers (Outcome.machine (x m)) := by
  -- No primitive enters or leaves a frame, and a sequence does what its parts do.
  induction h generalizing m with
  | done a => exact .refl m
  | fault fault => exact .refl m
  | query =>
    rw [query_apply]
    split <;> exact .refl m
  | @bind _ _ _ x f _ _ _ _ ihx ihf =>
    have hm := ihx m
    cases hx : x m with
    | ok a m' =>
      rw [hx] at hm
      rw [bind_of_ok f hx]
      exact hm.trans (ihf a m')
    | error fault m' =>
      rw [hx] at hm
      rwa [bind_of_error f hx]
  | weaken _ _ ih => exact ih m
  | pop =>
    unfold Exec.pop
    split
    · exact .refl m
    · exact .modifyTop m _
  | takeTop count =>
    unfold Exec.takeTop
    split
    · split <;> exact .refl m
    · split
      · exact .refl m
      · exact .modifyTop m _
  | push =>
    unfold Exec.push
    split
    · exact .refl m
    · exact .modifyTop m _
  | insertBeneath =>
    unfold Exec.insertBeneath
    split
    · exact .refl m
    · split
      · exact .refl m
      · exact .modifyTop m _
  | modifyTop => exact .modifyTop m _
  | store =>
    unfold Exec.store
    split
    · exact .refl m
    · exact ⟨rfl, rfl, rfl, rfl, rfl⟩
  | modifyObject => exact ⟨rfl, rfl, rfl, rfl, rfl⟩
  | setStatic => exact ⟨rfl, rfl, rfl, rfl, rfl⟩
  | write => exact ⟨rfl, rfl, rfl, rfl, rfl⟩
  | writeFile =>
    unfold Exec.writeFile
    split
    · exact ⟨rfl, rfl, rfl, rfl, rfl⟩
    · exact .refl m

end Exec

end ManagedCode
