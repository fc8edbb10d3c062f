import ManagedCode.Proofs.Execution.Evaluation
import ManagedCode.Proofs.Library.Natives

/-!
# The discipline of the call stack

A call leaves the frames as it found them, however it ends: each frame that it enters it leaves, and
all that happens in between reaches at most the running frame. A call on behalf of the running
method takes the arguments from its evaluation stack and puts the result there, and nothing else. No
machine that a run passes has more frames than the limit allows.
-/

namespace ManagedCode

namespace Exec

/-- The work of a native method is composed of the primitives. -/
theorem composed_runNative {held : List Value} (id : MethodId) :
    Composed held (runNative id) noValues := by
  refine .bind (composed_ask _) fun ⟨typeName, method⟩ => ?_
  dsimp only
  split
  · exact Native.composed_run _
  · exact .fault _ (by simp [Fault.IsMissing])

private theorem composed_pushAll {held : List Value} {result : Option Value}
    (h : Backed held result.toList) : Composed held (result.forM push) noValues := by
  cases result with
  | none => exact .done _ (.of_subset (by simp [noValues]))
  | some v => exact .push h

/-- Handing results on is composed of pushes. -/
theorem composed_pushResults {held : List Value} {result created : Option Value}
    (hr : Backed held result.toList) (hc : Backed held created.toList) :
    Composed held (pushResults result created) noValues :=
  .bind (composed_pushAll hr) fun _ =>
    composed_pushAll fun handle hm => List.mem_append_right _ (hc handle hm)

end Exec

namespace Machine

/-! ## Entering and leaving a frame -/

/-- The machine on which the frame of a call was entered. -/
def withFrame (m : Machine) (id : MethodId) (arguments : List Value) : Machine :=
  let caller := m.calls.top?.map (·.method)
  let frame := Frame.start caller id arguments m.options.locals
  { m with calls := { m.calls with frames := frame :: m.calls.frames } }

/-- A method is entered unless that would nest calls too deep. -/
theorem enter_apply (id : MethodId) (arguments : List Value) (m : Machine) :
    Exec.enter id arguments m =
      if m.calls.maxDepth ≤ m.calls.depth then
        .error (.stackOverflow (m.calls.depth + 1) m.calls.maxDepth) m
      else .ok () (m.withFrame id arguments) := by
  unfold Exec.enter CallStack.push
  split <;> rfl

/-- A frame is entered only below the limit. -/
theorem enter_eq_ok {id : MethodId} {arguments : List Value} {m m' : Machine}
    (h : Exec.enter id arguments m = .ok () m') :
    m.calls.depth < m.calls.maxDepth ∧ m' = m.withFrame id arguments := by
  rw [enter_apply] at h
  split at h
  · cases h
  · rename_i hd
    cases h
    exact ⟨Nat.lt_of_not_le hd, rfl⟩

/-- A frame that is refused changes nothing. -/
theorem enter_eq_error {id : MethodId} {arguments : List Value} {m m' : Machine} {fault : Fault}
    (h : Exec.enter id arguments m = .error fault m') : m' = m ∧ ¬ fault.IsMissing := by
  rw [enter_apply] at h
  split at h
  · cases h
    exact ⟨rfl, by simp [Fault.IsMissing]⟩
  · cases h

/-- The second machine has the frames of the first. -/
structure SameFrames (m m' : Machine) : Prop where
  frames : m'.calls.frames = m.calls.frames
  maxDepth : m'.calls.maxDepth = m.calls.maxDepth
  catalog : m'.catalog = m.catalog
  options : m'.options = m.options

/-- A machine has its own frames. -/
theorem SameFrames.refl (m : Machine) : m.SameFrames m := ⟨rfl, rfl, rfl, rfl⟩

/-- What two changes one after the other both keep of the frames is kept. -/
theorem SameFrames.trans {a b c : Machine} (hab : a.SameFrames b) (hbc : b.SameFrames c) :
    a.SameFrames c where
  frames := hbc.frames.trans hab.frames
  maxDepth := hbc.maxDepth.trans hab.maxDepth
  catalog := hbc.catalog.trans hab.catalog
  options := hbc.options.trans hab.options

/-- Machines with the same frames have the same callers. -/
theorem SameFrames.sameCallers {m m' : Machine} (h : m.SameFrames m') : m.SameCallers m' where
  callers := by rw [h.frames]
  depth := congrArg List.length h.frames
  maxDepth := h.maxDepth
  catalog := h.catalog
  options := h.options

/-- Leaving a frame uncovers the one beneath it. -/
theorem frames_exitFrame (m : Machine) : m.exitFrame.calls.frames = m.calls.frames.tail := by
  unfold exitFrame CallStack.pop?
  cases hf : m.calls.frames <;> simp [hf]

/-- Leaving a frame does not change how deep calls may nest. -/
theorem maxDepth_exitFrame (m : Machine) : m.exitFrame.calls.maxDepth = m.calls.maxDepth := by
  unfold exitFrame CallStack.pop?
  cases m.calls.frames <;> rfl

/-- Leaving a frame does not change what is loaded. -/
theorem catalog_exitFrame (m : Machine) : m.exitFrame.catalog = m.catalog := by
  unfold exitFrame CallStack.pop?
  cases m.calls.frames <;> rfl

/-- Leaving a frame does not change the options. -/
theorem options_exitFrame (m : Machine) : m.exitFrame.options = m.options := by
  unfold exitFrame CallStack.pop?
  cases m.calls.frames <;> rfl

/-- Leaving a frame does not change the heap. -/
theorem heap_exitFrame (m : Machine) : m.exitFrame.heap = m.heap := by
  unfold exitFrame
  split <;> rfl

/-- The frame that was left last is the one that ran. -/
theorem lastExited_exitFrame {m : Machine} (h : m.calls.frames ≠ []) :
    m.exitFrame.calls.lastExited = m.calls.top? := by
  unfold exitFrame CallStack.pop? CallStack.top?
  cases hf : m.calls.frames with
  | nil => exact absurd hf h
  | cons frame callers => rfl

/-- A result is taken from the frame that was left, not from the active ones. -/
theorem sameFrames_takeResult (id : MethodId) (m : Machine) :
    m.SameFrames (Outcome.machine (Exec.takeResult id m)) := by
  unfold Exec.takeResult
  split
  · split
    · exact ⟨rfl, rfl, rfl, rfl⟩
    · exact .refl m
  · exact .refl m

/-- Behind a method, the frames are those that were there when its own one was left. -/
theorem sameFrames_leave (id : MethodId) (worked : Outcome Unit) :
    worked.machine.exitFrame.SameFrames (leave id worked).machine := by
  cases worked with
  | ok _ m => exact sameFrames_takeResult id m.exitFrame
  | error fault m => exact .refl _

/-- Work in the frame of a call, which is then left, leaves the frames as they were. -/
theorem sameFrames_call {id : MethodId} {arguments : List Value} {m m' : Machine}
    (he : Exec.enter id arguments m = .ok () m') {worked : Outcome Unit}
    (hw : m'.SameCallers worked.machine) : m.SameFrames (leave id worked).machine := by
  obtain ⟨_, rfl⟩ := enter_eq_ok he
  refine SameFrames.trans ⟨?_, ?_, ?_, ?_⟩ (sameFrames_leave id worked)
  · rw [frames_exitFrame, hw.callers]
    rfl
  · rw [maxDepth_exitFrame, hw.maxDepth]
    rfl
  · rw [catalog_exitFrame, hw.catalog]
    rfl
  · rw [options_exitFrame, hw.options]
    rfl

/-! ## Calls -/

/-- An instruction does not touch the frames beneath its own one, also if it fails. -/
theorem sameCallers_evaluated (inst : Instruction) (m : Machine) :
    m.SameCallers (Outcome.machine (Exec.step inst m)) := by
  have h : Exec.Composed [] (Exec.step inst) Flow.values := Exec.composed_step inst
  exact h.sameCallers m

/-- An instruction that succeeds has left the frames beneath its own one alone. -/
theorem sameCallers_step {inst : Instruction} {m m' : Machine} {flow : Flow}
    (hs : Exec.step inst m = .ok flow m') : m.SameCallers m' := by
  have h := sameCallers_evaluated inst m
  rwa [hs] at h

/-- The work of a native method does not touch the frames beneath its own one. -/
theorem sameCallers_runNative (id : MethodId) (m : Machine) :
    m.SameCallers (Outcome.machine (Exec.runNative id m)) := by
  have h : Exec.Composed [] (Exec.runNative id) noValues := Exec.composed_runNative id
  exact h.sameCallers m

/-- Results are pushed in the frame of the caller alone. -/
theorem sameCallers_pushResults (result created : Option Value) (m : Machine) :
    m.SameCallers (Outcome.machine (Exec.pushResults result created m)) := by
  have hresult : Backed (result.toList ++ created.toList) result.toList := .of_subset (by simp)
  have hcreated : Backed (result.toList ++ created.toList) created.toList := .of_subset (by simp)
  exact (Exec.composed_pushResults hresult hcreated).sameCallers m

/-- What a work leaves alone: a call all frames, the rest of a body those of the callers. -/
def Keeps : Work → Machine → Machine → Prop
  | .call .., m, m' => m.SameFrames m'
  | .body .., m, m' => m.SameCallers m'

/-- However a work ends, it keeps the frames that are not its own. -/
theorem Ends.keeps {work : Work} {m : Machine} {outcome : Outcome work.Result}
    (h : Ends work m outcome) : Keeps work m outcome.machine := by
  induction h with
  | refused he =>
    obtain ⟨rfl, _⟩ := enter_eq_error he
    exact SameFrames.refl _
  | native he _ => exact sameFrames_call he (sameCallers_runNative _ _)
  | interpreted he _ _ ih => exact sameFrames_call he ih
  | passed => exact SameCallers.refl _
  | @faulted _ _ m _ inst _ _ hs =>
    have h := sameCallers_evaluated inst m
    rwa [hs] at h
  | left _ hs => exact sameCallers_step hs
  | next _ hs _ ih => exact (sameCallers_step hs).trans ih
  | jump _ hs _ _ ih => exact (sameCallers_step hs).trans ih
  | astray _ hs _ => exact sameCallers_step hs
  | calleeFaulted _ hs _ ih => exact (sameCallers_step hs).trans ih.sameCallers
  | @notResumed _ _ _ _ m₂ _ _ _ _ result created _ _ hs _ hp ih =>
    have h := sameCallers_pushResults result created m₂
    rw [hp] at h
    exact ((sameCallers_step hs).trans ih.sameCallers).trans h
  | @resumed _ _ _ _ m₂ _ _ _ _ result created _ _ hs _ hp _ ihc ihr =>
    have h := sameCallers_pushResults result created m₂
    rw [hp] at h
    exact (((sameCallers_step hs).trans ihc.sameCallers).trans h).trans ihr

/-! ## The limit -/

/-- The limit is the same, and is kept where it was kept before. -/
def KeepsLimit (m m' : Machine) : Prop :=
  m'.calls.maxDepth = m.calls.maxDepth ∧
    (m.calls.depth ≤ m.calls.maxDepth → m'.calls.depth ≤ m.calls.maxDepth)

/-- A depth that is never exceeded in either of two stages is not exceeded in both. -/
theorem KeepsLimit.trans {a b c : Machine} (hab : a.KeepsLimit b) (hbc : b.KeepsLimit c) :
    a.KeepsLimit c := by
  refine ⟨hbc.1.trans hab.1, fun hd => ?_⟩
  rw [← hab.1]
  exact hbc.2 (hab.1 ▸ hab.2 hd)

/-- A change within a frame keeps the depth, so the limit as well. -/
theorem SameCallers.keepsLimit {m m' : Machine} (h : m.SameCallers m') : m.KeepsLimit m' :=
  ⟨h.maxDepth, fun hd => h.depth ▸ hd⟩

/-- A method is entered only where the limit leaves room for its frame. -/
theorem keepsLimit_enter {id : MethodId} {arguments : List Value} {m m' : Machine}
    (he : Exec.enter id arguments m = .ok () m') : m.KeepsLimit m' := by
  obtain ⟨hd, rfl⟩ := enter_eq_ok he
  exact ⟨rfl, fun _ => hd⟩

/-- Whatever a run does, the frames beneath its own one are the same in the end. -/
theorem Ends.sameCallers {work : Work} {m : Machine} {outcome : Outcome work.Result}
    (h : Ends work m outcome) : m.SameCallers outcome.machine := by
  cases work with
  | call id arguments => exact h.keeps.sameCallers
  | body body position => exact h.keeps

/-- No machine that a run passes has more frames than the limit allows. -/
theorem Passes.keepsLimit {work : Work} {m m' : Machine} (h : Passes work m m') :
    m.KeepsLimit m' := by
  induction h with
  | start => exact (SameCallers.refl _).keepsLimit
  | ended he => exact he.sameCallers.keepsLimit
  | entered he => exact keepsLimit_enter he
  | native he _ => exact (keepsLimit_enter he).trans (sameCallers_runNative _ _).keepsLimit
  | interpreted he _ _ ih => exact (keepsLimit_enter he).trans ih
  | evaluated _ => exact (sameCallers_evaluated _ _).keepsLimit
  | next _ hs _ ih => exact (sameCallers_step hs).keepsLimit.trans ih
  | jump _ hs _ _ ih => exact (sameCallers_step hs).keepsLimit.trans ih
  | callee _ hs _ ih => exact (sameCallers_step hs).keepsLimit.trans ih
  | returned _ hs hc =>
    exact (((sameCallers_step hs).trans hc.sameCallers).trans
      (sameCallers_pushResults _ _ _)).keepsLimit
  | @resumed _ _ _ _ m₂ _ _ _ _ _ result created _ hs hc hp _ ih =>
    have hpush := sameCallers_pushResults result created m₂
    rw [hp] at hpush
    exact (((sameCallers_step hs).trans hc.sameCallers).trans hpush).keepsLimit.trans ih

/-! ## Calls on behalf of the running method -/

/-- A call that succeeds gives a result exactly if the method declares one. -/
theorem isSome_of_leave {id : MethodId} {worked : Outcome Unit} {result : Option Value}
    {m : Machine} (h : leave id worked = .ok result m) :
    result.isSome = (m.catalog.method id).returnsValue := by
  cases worked with
  | error fault m => cases h
  | ok _ m =>
    simp only [leave, Exec.takeResult] at h
    split at h
    · rename_i hr
      split at h
      · cases h
        exact hr.symm
      · cases h
    · rename_i hr
      cases h
      simpa using hr

/-- A call gives a result exactly if its method is declared to return one. -/
theorem isSome_of_ends {id : MethodId} {arguments : List Value} {m m' : Machine}
    {result : Option Value} (h : Ends (.call id arguments) m (.ok result m')) :
    result.isSome = (m.catalog.method id).returnsValue := by
  have hcatalog : m'.catalog = m.catalog := h.keeps.catalog
  rw [← hcatalog]
  generalize hout : (EStateM.Result.ok result m' : Outcome (Option Value)) = outcome at h
  cases h with
  | refused he => cases hout
  | native he _ => exact isSome_of_leave hout.symm
  | interpreted he _ _ => exact isSome_of_leave hout.symm

/-- As many values as the method takes are taken where there are as many. -/
theorem takeArguments_of_le {id : MethodId} {m : Machine} {frame : Frame} {callers : List Frame}
    (hf : m.calls.frames = frame :: callers)
    (hc : (m.catalog.method id).argumentCount ≤ frame.stack.length) : ∃ arguments,
      Exec.takeArguments id m = .ok arguments { m with calls := m.calls.modifyTop fun frame =>
        { frame with stack := frame.stack.drop (m.catalog.method id).argumentCount } } := by
  have ht : m.calls.top? = some frame := by rw [CallStack.top?, hf, List.head?_cons]
  have hq : Exec.query (fun m => .ok (m.catalog.method id)) m = .ok (m.catalog.method id) m := rfl
  have htake : Exec.takeTop (m.catalog.method id).argumentCount m =
      .ok (frame.stack.take (m.catalog.method id).argumentCount)
        { m with calls := m.calls.modifyTop fun frame =>
          { frame with stack := frame.stack.drop (m.catalog.method id).argumentCount } } := by
    simp only [Exec.takeTop, ht, Nat.not_lt.mpr hc, if_false]
  unfold Exec.takeArguments
  rw [Exec.bind_of_ok _ hq, Exec.bind_of_ok _ htake, Exec.query_apply]
  split
  · exact ⟨_, rfl⟩
  · rename_i h
    split at h <;> cases h

/-- Taking the arguments removes as many values as the method takes, or nothing at all. -/
theorem takeArguments_cases (id : MethodId) {m : Machine} {frame : Frame} {callers : List Frame}
    (hf : m.calls.frames = frame :: callers) :
    (∃ fault, Exec.takeArguments id m = .error fault m) ∨
      (m.catalog.method id).argumentCount ≤ frame.stack.length ∧ ∃ arguments,
        Exec.takeArguments id m = .ok arguments { m with calls := m.calls.modifyTop fun frame =>
          { frame with stack := frame.stack.drop (m.catalog.method id).argumentCount } } := by
  by_cases hc : frame.stack.length < (m.catalog.method id).argumentCount
  · left
    have ht : m.calls.top? = some frame := by rw [CallStack.top?, hf, List.head?_cons]
    have hq : Exec.query (fun m => .ok (m.catalog.method id)) m = .ok (m.catalog.method id) m :=
      rfl
    unfold Exec.takeArguments
    rw [Exec.bind_of_ok _ hq]
    refine ⟨.stackUnderflow m.runningMethod, Exec.bind_of_error _ ?_⟩
    simp only [Exec.takeTop, ht, hc, if_true]
  · right
    exact ⟨Nat.le_of_not_lt hc, takeArguments_of_le hf (Nat.le_of_not_lt hc)⟩

/-- What a call on behalf of a running method does to the frames. A success takes the arguments from
the evaluation stack and leaves as many values as the method returns; a fault takes the arguments or
nothing. All else stays. -/
def OnBehalf (method : Method) (frame : Frame) (callers : List Frame) :
    Outcome (Option Value) → Prop
  | .ok result m => result = none ∧ method.argumentCount ≤ frame.stack.length ∧
      ∃ returned : List Value, returned.length = (if method.returnsValue then 1 else 0) ∧
        m.calls.frames =
          { frame with stack := returned ++ frame.stack.drop method.argumentCount } :: callers
  | .error _ m => m.calls.frames = frame :: callers ∨
      method.argumentCount ≤ frame.stack.length ∧
        m.calls.frames = { frame with stack := frame.stack.drop method.argumentCount } :: callers

/-- A method that is executed for a frame works on its behalf. -/
theorem onBehalf_execute {fuel : Nat} {id : MethodId} {m : Machine} {frame : Frame}
    {callers : List Frame} {outcome : Outcome (Option Value)}
    (hf : m.calls.frames = frame :: callers) (h : m.execute fuel id = some outcome) :
    OnBehalf (m.catalog.method id) frame callers outcome := by
  unfold execute at h
  rcases takeArguments_cases id hf with ⟨fault, ht⟩ | ⟨hcount, arguments, ht⟩
  · rw [ht] at h
    cases h
    exact Or.inl hf
  · rw [ht] at h
    obtain ⟨ended, hcall, rfl⟩ := Option.map_eq_some_iff.mp h
    have hends := ends_of_call hcall
    have hframes := hends.keeps.frames
    rw [CallStack.frames_modifyTop hf] at hframes
    cases ended with
    | error fault m' => exact Or.inr ⟨hcount, hframes⟩
    | ok result m' =>
      have hresult := isSome_of_ends hends
      dsimp only at hresult
      cases result with
      | none => exact ⟨rfl, hcount, [], by simp [← hresult], hframes⟩
      | some v =>
        have ht' : m'.calls.top? = some { frame with
            stack := frame.stack.drop (m.catalog.method id).argumentCount } := by
          rw [CallStack.top?, show m'.calls.frames = _ from hframes, List.head?_cons]
        simp only [ht']
        exact ⟨rfl, hcount, [v], by simp [← hresult], CallStack.frames_modifyTop hframes⟩

/-- A call on behalf of the running method passes a machine. -/
inductive PassesOnBehalf (id : MethodId) (m : Machine) : Machine → Prop
  | start : PassesOnBehalf id m m
  | taken : PassesOnBehalf id m (Outcome.machine (Exec.takeArguments id m))
  | called {arguments : List Value} {m' m'' : Machine}
      (ht : Exec.takeArguments id m = .ok arguments m')
      (hc : Passes (.call id arguments) m' m'') : PassesOnBehalf id m m''
  | ended {fuel : Nat} {outcome : Outcome (Option Value)}
      (h : m.execute fuel id = some outcome) : PassesOnBehalf id m outcome.machine

/-- Taking arguments enters no frame. -/
theorem keepsLimit_takeArguments (id : MethodId) (m : Machine) :
    m.KeepsLimit (Outcome.machine (Exec.takeArguments id m)) := by
  have h : Exec.Composed [] (Exec.takeArguments id) fun arguments => arguments :=
    Exec.composed_takeArguments id
  exact (h.sameCallers m).keepsLimit

/-- Executing a method keeps within the limit. -/
theorem keepsLimit_execute {fuel : Nat} {id : MethodId} {m : Machine}
    {outcome : Outcome (Option Value)} (h : m.execute fuel id = some outcome) :
    m.KeepsLimit outcome.machine := by
  have htake := keepsLimit_takeArguments id m
  unfold execute at h
  split at h
  · rename_i ht
    rw [ht] at htake
    cases h
    exact htake
  · rename_i ht
    rw [ht] at htake
    obtain ⟨ended, hcall, rfl⟩ := Option.map_eq_some_iff.mp h
    refine htake.trans ((ends_of_call hcall).sameCallers.keepsLimit.trans ?_)
    split
    · exact (SameCallers.refl _).keepsLimit
    · split
      · exact (SameCallers.modifyTop _ _).keepsLimit
      · exact (SameCallers.refl _).keepsLimit

/-- Every machine on the way of an execution is within the limit. -/
theorem PassesOnBehalf.keepsLimit {id : MethodId} {m m' : Machine} (h : PassesOnBehalf id m m') :
    m.KeepsLimit m' := by
  cases h with
  | start => exact (SameCallers.refl m).keepsLimit
  | taken => exact keepsLimit_takeArguments id m
  | called ht hc =>
    have htake := keepsLimit_takeArguments id m
    rw [ht] at htake
    exact htake.trans hc.keepsLimit
  | ended h => exact keepsLimit_execute h

/-- The discipline of the call stack. A call that returns, with a result or a fault, leaves exactly
the frames that it found; a call on behalf of a running method changes only the evaluation stack of
that method, by the arguments and the result; and no machine on the way has more frames than the
limit. -/
theorem call_stack_discipline (m : Machine) (hd : m.calls.depth ≤ m.calls.maxDepth)
    (id : MethodId) :
    (∀ arguments fuel outcome, m.call fuel id arguments = some outcome →
      outcome.machine.calls.frames = m.calls.frames) ∧
    (∀ frame callers fuel outcome, m.calls.frames = frame :: callers →
      m.execute fuel id = some outcome →
      OnBehalf (m.catalog.method id) frame callers outcome) ∧
    (∀ arguments m', Passes (.call id arguments) m m' →
      m'.calls.depth ≤ m.calls.maxDepth ∧ m'.calls.maxDepth = m.calls.maxDepth) ∧
    (∀ m', PassesOnBehalf id m m' →
      m'.calls.depth ≤ m.calls.maxDepth ∧ m'.calls.maxDepth = m.calls.maxDepth) := by
  refine ⟨?_, ?_, ?_, ?_⟩
  · intro arguments fuel outcome h
    exact (ends_of_call h).keeps.frames
  · intro frame callers fuel outcome hf h
    exact onBehalf_execute hf h
  · intro arguments m' hp
    exact ⟨hp.keepsLimit.2 hd, hp.keepsLimit.1⟩
  · intro m' hp
    exact ⟨hp.keepsLimit.2 hd, hp.keepsLimit.1⟩

/-- A machine on which one method runs, below the limit. -/
theorem call_stack_discipline_running :
    let m := (Machine.new {} .empty).withFrame ⟨0⟩ [.int32 7]
    m.calls.depth = 1 ∧ m.calls.maxDepth = 25 ∧
      ∀ arguments m', Passes (.call ⟨1⟩ arguments) m m' → m'.calls.depth ≤ 25 :=
  ⟨rfl, rfl, fun arguments m' hp =>
    ((call_stack_discipline _ (Nat.le_of_ble_eq_true rfl) ⟨1⟩).2.2.1 arguments m' hp).1⟩

end Machine

end ManagedCode
