import ManagedCode.Proofs.Renaming.Twins

/-!
# Callees do not see their callers

Let two machines be equal except for their frames, of which they have the same number. While a
method that both call runs, the frames from its own upwards are alike on both, and those of the
callers lie beneath. No instruction and no native method reaches a frame but the running one, so the
callee does the same on both machines and gives the same result or fault.
-/

namespace ManagedCode

/-! ## Frames above those of the callers -/

/-- The frames above the lowest `base` ones are alike, and there is one at least. -/
inductive FramesAlike (base : Nat) : List Frame → List Frame → Prop
  | callee {a b : Frame} {callers callers' : List Frame}
      (hab : a.Alike (PEquiv.refl Handle) b) (h : callers.length = base)
      (h' : callers'.length = base) : FramesAlike base (a :: callers) (b :: callers')
  | above {a b : Frame} {frames frames' : List Frame} (hab : a.Alike (PEquiv.refl Handle) b)
      (h : FramesAlike base frames frames') : FramesAlike base (a :: frames) (b :: frames')

/-- Frames of calls with the same arguments start alike, whoever the callers are. -/
theorem Frame.alike_start (caller caller' : Option MethodId) (id : MethodId)
    (arguments : List Value) (locals : Nat) :
    (Frame.start caller id arguments locals).Alike (PEquiv.refl Handle)
      (Frame.start caller' id arguments locals) := by
  have hsame : ∀ values, Values.Alike (PEquiv.refl Handle) values values := fun _ =>
    Values.alike_refl_iff.mpr rfl
  exact ⟨rfl, hsame _, hsame _, hsame _⟩

namespace FramesAlike

variable {base : Nat} {frames frames' : List Frame}

/-- There are equally many frames, one of them above the base at least. -/
theorem lengths (h : FramesAlike base frames frames') :
    frames.length = frames'.length ∧ base < frames.length := by
  induction h with
  | callee _ h h' =>
    simp only [List.length_cons]
    omega
  | above _ _ ih =>
    simp only [List.length_cons]
    omega

/-- The top frames are alike. -/
theorem head (h : FramesAlike base frames frames') :
    Option.Rel (Frame.Alike (PEquiv.refl Handle)) frames.head? frames'.head? := by
  cases h with
  | callee hab _ _ => exact .some hab
  | above hab _ => exact .some hab

/-- The running frames are replaced. -/
theorem replace {a b a' b' : Frame} (h : FramesAlike base (a :: frames) (b :: frames'))
    (hab : a'.Alike (PEquiv.refl Handle) b') :
    FramesAlike base (a' :: frames) (b' :: frames') := by
  cases h with
  | callee _ h h' => exact .callee hab h h'
  | above _ h => exact .above hab h

/-- The running frames are left where others above those of the callers remain. -/
theorem tail (h : FramesAlike base frames frames') (hlength : base + 1 < frames.length) :
    FramesAlike base frames.tail frames'.tail := by
  cases h with
  | callee _ h _ =>
    simp only [List.length_cons] at hlength
    omega
  | above _ h => exact h

end FramesAlike

namespace Machine

/-- The machines are equal except for their frames, of which they have the same number. -/
structure SameButFrames (m m' : Machine) : Prop extends m.Twins m' where
  options : m.options = m'.options
  depth : m.calls.depth = m'.calls.depth
  maxDepth : m.calls.maxDepth = m'.calls.maxDepth

/-- Machines that differ in frames only do so the other way round. -/
theorem SameButFrames.symm {m m' : Machine} (h : m.SameButFrames m') : m'.SameButFrames m where
  catalog := h.catalog.symm
  core := h.core.symm
  heap := h.heap.symm
  statics := h.statics.symm
  output := h.output.symm
  files := h.files.symm
  options := h.options.symm
  depth := h.depth.symm
  maxDepth := h.maxDepth.symm

/-- Leaving a frame changes the call stack only. -/
theorem exitFrame_eq (m : Machine) : m.exitFrame = { m with calls := m.exitFrame.calls } := by
  unfold exitFrame
  split <;> rfl

/-- Machines that differ in frames only still do when a frame is left. -/
theorem SameButFrames.exitFrame {m m' : Machine} (h : m.SameButFrames m') :
    m.exitFrame.SameButFrames m'.exitFrame := by
  have hlength : m.calls.frames.length = m'.calls.frames.length := h.depth
  rw [exitFrame_eq m, exitFrame_eq m']
  refine { h with depth := ?_, maxDepth := ?_ }
  · unfold CallStack.depth
    rw [frames_exitFrame, frames_exitFrame, List.length_tail, List.length_tail, hlength]
  · rw [maxDepth_exitFrame, maxDepth_exitFrame, h.maxDepth]

/-- The machines are equal except for the lowest `base` frames. -/
structure SameAbove (base : Nat) (m m' : Machine) : Prop extends m.SameButFrames m' where
  frames : FramesAlike base m.calls.frames m'.calls.frames

namespace SameAbove

variable {base : Nat} {m m' : Machine}

/-- The frames above the base stay alike when the top ones are changed alike. -/
theorem modifyTop {f g : Frame → Frame} (h : SameAbove base m m')
    (hfg : ∀ a b, m.calls.top? = some a → m'.calls.top? = some b →
      (f a).Alike (PEquiv.refl Handle) (g b)) :
    SameAbove base { m with calls := m.calls.modifyTop f }
      { m' with calls := m'.calls.modifyTop g } := by
  have hframes : FramesAlike base (m.calls.modifyTop f).frames (m'.calls.modifyTop g).frames := by
    have hold := h.frames
    simp only [CallStack.modifyTop]
    generalize hx : m.calls.frames = x, hy : m'.calls.frames = y at hold
    cases x with
    | nil => cases hold
    | cons a callers =>
      cases y with
      | nil => cases hold
      | cons b callers' =>
        have ht : m.calls.top? = some a := by rw [CallStack.top?, hx, List.head?_cons]
        have ht' : m'.calls.top? = some b := by rw [CallStack.top?, hy, List.head?_cons]
        exact hold.replace (hfg a b ht ht')
  refine { h with frames := hframes, depth := hframes.lengths.1, maxDepth := ?_ }
  simpa using h.maxDepth

/-- The same method may be entered on both machines. -/
theorem withFrame (h : SameAbove base m m') (id : MethodId) (values : List Value) :
    SameAbove base (m.withFrame id values) (m'.withFrame id values) := by
  have hframes : FramesAlike base (m.withFrame id values).calls.frames
      (m'.withFrame id values).calls.frames := by
    simp only [Machine.withFrame, h.options]
    exact .above (Frame.alike_start _ _ id values _) h.frames
  exact { h with frames := hframes, depth := hframes.lengths.1 }

/-- A frame above the base may be left on both machines. -/
theorem exitFrame (h : SameAbove base m m') (hd : base + 1 < m.calls.depth) :
    SameAbove base m.exitFrame m'.exitFrame := by
  have hframes := h.frames.tail hd
  rw [← frames_exitFrame, ← frames_exitFrame] at hframes
  exact ⟨h.toSameButFrames.exitFrame, hframes⟩

/-- Machines that are equal above the frames of the callers run in lockstep. -/
theorem twinRelation (base : Nat) : TwinRelation (SameAbove base) where
  catalog h := .of_eq h.catalog
  core h := h.core
  heap h := h.heap
  statics h := h.statics
  output h := h.output
  files h := h.files
  top h := h.frames.head
  maxArrayLength h := congrArg Options.maxArrayLength h.options
  depth h := h.depth
  maxDepth h := h.maxDepth
  setHeap h _ := { h with heap := rfl }
  setStatics h _ := { h with statics := rfl }
  setOutput h _ := { h with output := rfl }
  setFiles h _ := { h with files := rfl }
  modifyTop h hfg := h.modifyTop fun a b ha hb => (hfg a b ha hb).1
  withFrame h := h.withFrame
  exitFrame hbefore h hd := by
    have hbase := hbefore.frames.lengths.2
    apply h.exitFrame
    rw [hd]
    exact Nat.succ_lt_succ hbase
  popLastExited h _ _ := { h with }

/-- Machines that are the same above a base run in lockstep. -/
theorem lockstep (base : Nat) : Lockstep (fun _ => False) (SameHandles (SameAbove base)) where
  toParallel := (twinRelation base).parallel
  catalog hm := hm.2.catalog
  argumentOrder hm := congrArg Options.argumentOrder hm.2.options

end SameAbove

/-- The frames of a call are the first ones above those of the callers. -/
theorem SameButFrames.withFrame {m m' : Machine} (h : m.SameButFrames m') (id : MethodId)
    (arguments : List Value) :
    SameAbove m.calls.depth (m.withFrame id arguments) (m'.withFrame id arguments) := by
  have hframes : FramesAlike m.calls.depth (m.withFrame id arguments).calls.frames
      (m'.withFrame id arguments).calls.frames := by
    simp only [Machine.withFrame, h.options]
    exact .callee (Frame.alike_start _ _ id arguments _) rfl h.depth.symm
  exact { h with frames := hframes, depth := hframes.lengths.1 }

end Machine

/-! ## Outcomes -/

/-- The outcomes are the same result or the same fault, on machines that are equal except for their
frames, of which they have the same number. -/
inductive Outcome.SameButFrames {α : Type} : Outcome α → Outcome α → Prop
  | ok (a : α) {m m' : Machine} (h : m.SameButFrames m') : SameButFrames (.ok a m) (.ok a m')
  | error (fault : Fault) {m m' : Machine} (h : m.SameButFrames m') :
      SameButFrames (.error fault m) (.error fault m')

namespace Machine

variable {m m' : Machine}

/-- Results are taken from frames that are alike. -/
theorem SameButFrames.takeResult (h : m.SameButFrames m') (id : MethodId)
    (hlast : Option.Rel (Frame.Alike (PEquiv.refl Handle)) m.calls.lastExited
      m'.calls.lastExited) :
    Outcome.SameButFrames (Exec.takeResult id m) (Exec.takeResult id m') := by
  have hmethod : m.catalog.method id = m'.catalog.method id := by rw [h.catalog]
  have hname : m.catalog.methodName id = m'.catalog.methodName id := by rw [h.catalog]
  unfold Exec.takeResult
  rw [hmethod, hname]
  split
  · generalize m.calls.lastExited = x, m'.calls.lastExited = y at hlast
    cases hlast with
    | none => exact .error _ h
    | @some a b hf =>
      have hp := hf.pop?
      simp only [Option.bind_some]
      generalize a.pop? = popped, b.pop? = popped' at hp
      cases hp with
      | none => exact .error _ h
      | @some p q hp =>
        obtain ⟨v, frame⟩ := p
        obtain ⟨w, frame'⟩ := q
        obtain rfl : v = w := Value.alike_refl_iff.mp hp.1
        exact .ok _ { h with depth := h.depth, maxDepth := h.maxDepth }
  · exact .ok _ h

/-- Work in the frames of a call that was followed gives the same when the frames are left. -/
theorem SameAbove.leave (base : Nat) (id : MethodId) {worked : Outcome Unit}
    {second : Option (Outcome Unit)}
    (hw : Followed (fun _ => False) (SameHandles (SameAbove base)) (PEquiv.refl Handle) Same
      worked second) :
    Option.Rel Outcome.SameButFrames (some (leave id worked)) (second.map (leave id)) := by
  cases hw with
  | excused h => exact h.elim
  | fault _ hm hf =>
    obtain ⟨rfl, hm⟩ := hm
    obtain rfl := Fault.eq_of_alike_refl hf
    exact .some (.error _ hm.toSameButFrames.exitFrame)
  | @ok _ _ _ m m' _ hm _ =>
    obtain ⟨rfl, hm⟩ := hm
    have hne : m.calls.frames ≠ [] := by
      intro hnil
      have hlength := hm.frames.lengths.2
      rw [hnil] at hlength
      cases hlength
    have hne' : m'.calls.frames ≠ [] := by
      intro hnil
      have hlength := hm.frames.lengths
      rw [hnil] at hlength
      simp only [List.length_nil] at hlength
      omega
    refine .some (hm.toSameButFrames.exitFrame.takeResult id ?_)
    rw [lastExited_exitFrame hne, lastExited_exitFrame hne']
    exact hm.frames.head

/-- A call that ends on the first machine ends on the second one in the same way. -/
theorem SameButFrames.call (h : m.SameButFrames m') {fuel : Nat} {id : MethodId}
    {arguments : List Value} {outcome : Outcome (Option Value)}
    (hcall : m.call fuel id arguments = some outcome) :
    Option.Rel Outcome.SameButFrames (some outcome) (m'.call fuel id arguments) := by
  have hframe := h.withFrame id arguments
  have hl := SameAbove.lockstep m.calls.depth
  unfold Machine.call callWith at hcall ⊢
  rw [enter_apply] at hcall ⊢
  rw [← h.depth, ← h.maxDepth]
  by_cases hfull : m.calls.maxDepth ≤ m.calls.depth
  · rw [if_pos hfull] at hcall ⊢
    cases hcall
    exact .some (.error _ h)
  · rw [if_neg hfull] at hcall ⊢
    obtain ⟨worked, hworked, rfl⟩ := Option.map_eq_some_iff.mp hcall
    dsimp only
    rw [← hframe.catalog]
    apply SameAbove.leave m.calls.depth
    cases hn : ((m.withFrame id arguments).catalog.method id).isNative with
    | true =>
      simp only [hn, if_true, Option.some.injEq] at hworked ⊢
      rw [← hworked]
      exact hl.paired (Exec.paired_runNative id) ⟨rfl, hframe⟩
    | false =>
      simp only [hn, Bool.false_eq_true, if_false] at hworked ⊢
      exact hl.runBody ⟨rfl, hframe⟩ hworked

/-- A callee sees nothing of its callers. Let two machines be equal except for their frames, of
which they have the same number; the stacks, locals and arguments of these frames and the frame that
was left last may be whatever they are. Then a call of a method with some arguments ends on one
machine if it ends on the other one, with the same result or fault, and the machines are afterwards
again equal except for their frames. -/
theorem callee_isolated (h : m.SameButFrames m') (fuel : Nat) (id : MethodId)
    (arguments : List Value) :
    Option.Rel Outcome.SameButFrames (m.call fuel id arguments)
      (m'.call fuel id arguments) := by
  cases hcall : m.call fuel id arguments with
  | some outcome => exact h.call hcall
  | none =>
    cases hcall' : m'.call fuel id arguments with
    | none => exact .none
    | some outcome =>
      have hback := h.symm.call hcall'
      rw [hcall] at hback
      cases hback

/-- Joining two texts gives the same whatever argument the caller has got. -/
theorem callee_isolated_joined :
    let caller (argument : Value) := (Machine.new {} .empty).withFrame ⟨0⟩ [argument]
    let call (m : Machine) := m.call 0 ⟨3⟩ [.null, .null]
    (caller .null).calls.frames ≠ (caller (.int32 1)).calls.frames ∧
      ∃ outcome outcome', call (caller .null) = some outcome ∧
        call (caller (.int32 1)) = some outcome' ∧ outcome.machine.heap.live = 1 ∧
        outcome.SameButFrames outcome' := by
  intro caller call
  have hdiffer : (caller .null).calls.frames ≠ (caller (.int32 1)).calls.frames := by
    intro hframes
    cases congrArg (List.map Frame.arguments) hframes
  have hsame : (caller .null).SameButFrames (caller (.int32 1)) :=
    ⟨⟨rfl, rfl, rfl, rfl, rfl, rfl⟩, rfl, rfl, rfl⟩
  have hlive : (call (caller .null)).any (fun outcome => outcome.machine.heap.live == 1) = true := by
    decide +kernel
  obtain ⟨outcome, hcall, hlive⟩ := (Option.any_eq_true _ _).mp hlive
  have hisolated := callee_isolated hsame 0 ⟨3⟩ [.null, .null]
  rw [show (caller .null).call 0 ⟨3⟩ [.null, .null] = some outcome from hcall] at hisolated
  generalize hcall' : (caller (.int32 1)).call 0 ⟨3⟩ [.null, .null] = other at hisolated
  cases hisolated with
  | some houtcome =>
    exact ⟨hdiffer, outcome, _, hcall, hcall', by simpa using hlive, houtcome⟩

end Machine

end ManagedCode
