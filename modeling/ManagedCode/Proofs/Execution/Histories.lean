import Mathlib.Control.Monad.Basic
import ManagedCode.Machine.Loading
import ManagedCode.Proofs.Execution.CallStack
import ManagedCode.Proofs.Execution.Safety

/-!
# Histories of a machine

A host makes a machine and then acts on it: it loads modules, calls methods, makes objects, stores
fields and removes garbage, one action after another. As long as it passes only live references, no
reference of the machine ever dangles, and no action fails because a handle is stale.
-/

namespace ManagedCode

/-- The values with which a work begins. -/
def Work.held : Work → List Value
  | .call _ arguments => arguments
  | .body .. => []

/-- The values that a work gives. -/
def Work.given : (work : Work) → work.Result → List Value
  | .call .. => Option.toList
  | .body .. => noValues

namespace Machine

/-! ## Runs -/

/-- What is safe to do after objects were added is safe to do with them. -/
theorem Safely.after {α : Type} {given : α → List Value} {m m' : Machine} {outcome : Outcome α}
    (h : m'.Safely given outcome) (hg : m.Grows m') : m.Safely given outcome := by
  cases outcome with
  | ok a m'' => exact ⟨h.1, hg.trans h.2.1, h.2.2⟩
  | error fault m'' => exact ⟨h.1, hg.trans h.2.1, h.2.2⟩

/-- A frame that starts with good arguments holds good values. -/
theorem Sound.withFrame {m : Machine} (hs : m.Sound) (id : MethodId) {arguments : List Value}
    (ha : m.Holds arguments) : (m.withFrame id arguments).Sound := by
  refine hs.setFrames rfl rfl fun frame hm => ?_
  rcases List.mem_cons.mp hm with rfl | hm
  · refine ha.backed fun handle hv => ?_
    simp only [Frame.values, Frame.start, List.nil_append, Array.toList_replicate,
      List.mem_append, List.mem_replicate, reduceCtorEq, and_false, false_or] at hv
    exact hv
  · exact hs.noDangling.frames frame hm

/-- A sound machine stays sound when a frame is left. -/
theorem Sound.exitFrame {m : Machine} (hs : m.Sound) : m.exitFrame.Sound := by
  have hstatics : m.exitFrame.statics = m.statics := by
    unfold Machine.exitFrame
    split <;> rfl
  refine hs.setFrames (heap_exitFrame m) hstatics fun frame hm => ?_
  rw [frames_exitFrame] at hm
  exact hs.noDangling.frames frame (List.mem_of_mem_tail hm)

/-- A result is taken safely if the frame that was left last holds good values. -/
theorem safely_takeResult {m : Machine} (hs : m.Sound)
    (hl : ∀ frame, m.calls.lastExited = some frame → m.Holds frame.values) (id : MethodId) :
    m.Safely Option.toList (Exec.takeResult id m) := by
  unfold Exec.takeResult
  split
  · cases hp : m.calls.lastExited.bind Frame.pop? with
    | none => exact ⟨hs, .refl m, by simp [Fault.IsMissing]⟩
    | some popped =>
      obtain ⟨v, rest⟩ := popped
      obtain ⟨frame, hframe, hpop⟩ := Option.bind_eq_some_iff.mp hp
      have hvalues := hl frame hframe
      rw [Frame.pop?_eq_some hpop, Frame.values_push, holds_cons] at hvalues
      exact ⟨hs.elsewhere rfl rfl rfl, .refl m, hvalues.1⟩
  · exact ⟨hs, .refl m, holds_nil m⟩

/-- A call whose work ended safely in its frame is left safely. -/
theorem Safely.leave {m : Machine} {worked : Outcome Unit} (h : m.Safely noValues worked)
    (hf : worked.machine.calls.frames ≠ []) (id : MethodId) :
    m.Safely Option.toList (leave id worked) := by
  cases worked with
  | error fault m' => exact ⟨h.1.exitFrame, h.2.1.trans (.of_eq (heap_exitFrame m')), h.2.2⟩
  | ok _ m' =>
    have hexit : m'.Grows m'.exitFrame := .of_eq (heap_exitFrame m')
    refine (safely_takeResult h.1.exitFrame (fun frame hframe => ?_) id).after (h.2.1.trans hexit)
    have hlast : m'.exitFrame.calls.lastExited = m'.calls.top? := lastExited_exitFrame hf
    rw [hlast] at hframe
    exact (h.1.noDangling.top hframe).grow hexit

/-- A frame is entered, work is done in it, and it is left. -/
theorem safely_call {id : MethodId} {arguments : List Value} {m m' : Machine}
    (he : Exec.enter id arguments m = .ok () m') {worked : Outcome Unit}
    (hc : m'.SameCallers worked.machine) (hw : m'.Safely noValues worked) :
    m.Safely Option.toList (leave id worked) := by
  obtain ⟨_, rfl⟩ := enter_eq_ok he
  have hf : worked.machine.calls.frames ≠ [] := by
    intro hnil
    have hd := hc.depth
    rw [CallStack.depth, hnil] at hd
    cases hd
  have hg : m.Grows (m.withFrame id arguments) := .of_eq rfl
  exact (hw.leave hf id).after hg

/-- An instruction is safe on a sound machine. -/
theorem safely_step {inst : Instruction} {m : Machine} {outcome : Outcome Flow} (hs : m.Sound)
    (h : Exec.step inst m = outcome) : m.Safely Flow.values outcome := by
  rw [← h]
  exact (Exec.composed_step inst).safely hs (holds_nil m)

/-- It is safe to push results that refer to live objects. -/
theorem safely_pushResults {result created : Option Value} {m : Machine} {outcome : Outcome Unit}
    (hs : m.Sound) (hr : m.Holds result.toList) (hc : m.Holds created.toList)
    (h : Exec.pushResults result created m = outcome) : m.Safely noValues outcome := by
  have hresult : Backed (result.toList ++ created.toList) result.toList := .of_subset (by simp)
  have hcreated : Backed (result.toList ++ created.toList) created.toList := .of_subset (by simp)
  rw [← h]
  exact (Exec.composed_pushResults hresult hcreated).safely hs (holds_append.mpr ⟨hr, hc⟩)

/-- A work begun with good values on a sound machine ends safely, however it ends. -/
theorem Ends.safely {work : Work} {m : Machine} {outcome : Outcome work.Result}
    (h : Ends work m outcome) (hs : m.Sound) (hh : m.Holds work.held) :
    m.Safely work.given outcome := by
  -- Each step is safe, grows the heap at most, and hands good values to the next one.
  induction h with
  | refused he =>
    obtain ⟨rfl, hm⟩ := enter_eq_error he
    exact ⟨hs, .refl _, hm⟩
  | @native id arguments m _ he _ =>
    have hentered : (m.withFrame id arguments).Sound := hs.withFrame id hh
    rw [← (enter_eq_ok he).2] at hentered
    refine safely_call he (sameCallers_runNative _ _) ?_
    exact (Exec.composed_runNative id).safely hentered (holds_nil _)
  | @interpreted id arguments m _ _ he _ hb ih =>
    have hentered : (m.withFrame id arguments).Sound := hs.withFrame id hh
    rw [← (enter_eq_ok he).2] at hentered
    exact safely_call he hb.keeps (ih hentered (holds_nil _))
  | passed => exact ⟨hs, .refl _, holds_nil _⟩
  | faulted _ hstep => exact safely_step hs hstep
  | left _ hstep => exact safely_step hs hstep
  | next _ hstep _ ih =>
    obtain ⟨hs', hg, _⟩ := safely_step hs hstep
    exact (ih hs' (holds_nil _)).after hg
  | jump _ hstep _ _ ih =>
    obtain ⟨hs', hg, _⟩ := safely_step hs hstep
    exact (ih hs' (holds_nil _)).after hg
  | astray _ hstep _ =>
    obtain ⟨hs', hg, _⟩ := safely_step hs hstep
    exact ⟨hs', hg, by simp [Fault.IsMissing]⟩
  | calleeFaulted _ hstep _ ih =>
    obtain ⟨hs', hg, hvalues⟩ := safely_step hs hstep
    exact (ih hs' (holds_append.mp hvalues).1).after hg
  | notResumed _ hstep _ hp ih =>
    obtain ⟨hs₁, hg₁, hvalues⟩ := safely_step hs hstep
    obtain ⟨harguments, hcreated⟩ := holds_append.mp hvalues
    obtain ⟨hs₂, hg₂, hresult⟩ := ih hs₁ harguments
    exact (safely_pushResults hs₂ hresult (hcreated.grow hg₂) hp).after (hg₁.trans hg₂)
  | resumed _ hstep _ hp _ ihc ihr =>
    obtain ⟨hs₁, hg₁, hvalues⟩ := safely_step hs hstep
    obtain ⟨harguments, hcreated⟩ := holds_append.mp hvalues
    obtain ⟨hs₂, hg₂, hresult⟩ := ihc hs₁ harguments
    obtain ⟨hs₃, hg₃, _⟩ := safely_pushResults hs₂ hresult (hcreated.grow hg₂) hp
    exact (ihr hs₃ (holds_nil _)).after ((hg₁.trans hg₂).trans hg₃)

/-! ## Calls and collections between them -/

/-- A call with live references is safe, and its result is live. -/
theorem safely_runCall {fuel : Nat} {id : MethodId} {arguments : List Value} {m : Machine}
    {outcome : Outcome (Option Value)} (hs : m.Sound) (ha : m.Holds arguments)
    (h : m.call fuel id arguments = some outcome) : m.Safely Option.toList outcome :=
  (ends_of_call h).safely hs ha

/-- Executing a method is safe, since its arguments come from the stack. -/
theorem safely_execute {fuel : Nat} {id : MethodId} {m : Machine}
    {outcome : Outcome (Option Value)} (hs : m.Sound) (h : m.execute fuel id = some outcome) :
    m.Safely Option.toList outcome := by
  have htake : m.Safely (fun arguments => arguments) (Exec.takeArguments id m) :=
    (Exec.composed_takeArguments id).safely hs (holds_nil m)
  unfold execute at h
  cases ht : Exec.takeArguments id m with
  | error fault m' =>
    rw [ht] at h htake
    cases h
    exact htake
  | ok arguments m' =>
    rw [ht] at h htake
    obtain ⟨hs', hg, ha⟩ := htake
    obtain ⟨ended, hcall, rfl⟩ := Option.map_eq_some_iff.mp h
    have hsafe := safely_runCall hs' ha hcall
    cases ended with
    | error fault m'' => exact hsafe.after hg
    | ok result m'' =>
      dsimp only
      split
      · rename_i v _ _
        refine ⟨hsafe.1.modifyTop fun frame hframe => ?_, hg.trans hsafe.2.1, holds_nil _⟩
        rw [Frame.values_push]
        exact holds_cons.mpr ⟨hsafe.2.2, hsafe.1.noDangling.top hframe⟩
      · exact hsafe.after hg

/-- The arguments of a program are made by the primitives. -/
theorem composed_startArguments (id : MethodId) (texts : List String) :
    Exec.Composed [] (startArguments id texts) fun arguments => arguments := by
  refine .bind (Exec.composed_ask _) fun arity => ?_
  split
  · exact .done _ (.of_subset (by simp))
  · refine .bind (Exec.composed_mapM fun text _ => Exec.composed_allocString text) fun strings => ?_
    refine .bind (Exec.composed_allocArray (.of_subset fun v hv => ?_)) fun array => ?_
    · simpa using Or.inl hv
    · exact .done _ (.of_subset (by simp))

/-- Starting a program is safe. -/
theorem safely_start {fuel : Nat} {texts : List String} {m : Machine}
    {outcome : Outcome (Option Value)} (hs : m.Sound) (h : m.start fuel texts = some outcome) :
    m.Safely Option.toList outcome := by
  unfold start at h
  split at h
  · cases h
    exact ⟨hs, .refl m, by simp [Fault.IsMissing]⟩
  · rename_i id _
    have hprepare : m.Safely (fun arguments => arguments) (startArguments id texts m) :=
      (composed_startArguments id texts).safely hs (holds_nil m)
    split at h
    · rename_i hp
      rw [hp] at hprepare
      cases h
      exact hprepare
    · rename_i hp
      rw [hp] at hprepare
      exact (safely_runCall hprepare.1 hprepare.2.2 h).after hprepare.2.1

/-- Garbage collection starts from the references in frames and static fields. -/
theorem mem_roots {m : Machine} {handle : Handle} :
    handle ∈ m.roots ↔
      (∃ frame ∈ m.calls.frames, Value.ref handle ∈ frame.values) ∨
        Value.ref handle ∈ m.statics.values := by
  rw [roots, mem_handles_iff, List.mem_append, List.mem_flatMap]

/-- Removing garbage keeps a machine sound: what it still refers to is not removed. -/
theorem Sound.collectGarbage {m : Machine} (hs : m.Sound) : m.collectGarbage.2.Sound := by
  have hn := hs.noDangling
  refine ⟨hs.heap.collect m.roots, hs.capacity, ?_, ?_, ?_⟩
  · intro frame hf handle hv
    have hroot : handle ∈ m.roots := mem_roots.mpr (Or.inl ⟨frame, hf, hv⟩)
    exact Heap.live_collect_of_root hroot (hn.frames frame hf handle hv)
  · intro handle hv
    have hroot : handle ∈ m.roots := mem_roots.mpr (Or.inr hv)
    exact Heap.live_collect_of_root hroot (hn.statics handle hv)
  · intro handle object ho r hr
    have hold := (Heap.get?_collect_eq_some_iff.mp ho).1
    exact Heap.live_collect_of_reference ho hr (hn.objects handle object hold r hr)

end Machine

/-! ## Loading -/

/-- The fault says that a module cannot be decoded or that something in it does not resolve. -/
inductive Fault.IsRejection : Fault → Prop
  | decode (error : DecodeError) : IsRejection (.decode error)
  | resolve (error : ResolveError) : IsRejection (.resolve error)

/-- A module is rejected for other reasons than a stale handle. -/
theorem Fault.IsRejection.not_isMissing {fault : Fault} (h : fault.IsRejection) :
    ¬ fault.IsMissing := by
  cases h <;> simp [Fault.IsMissing]

namespace Load

/-- Every fault of the computation is an allowed one. -/
def FailsWith (allowed : Fault → Prop) {α : Type} (x : Load α) : Prop :=
  ∀ catalog fault catalog', x catalog = .error fault catalog' → allowed fault

section Failing

variable {allowed : Fault → Prop} {α β : Type}

/-- Phases in sequence fail with what one of them fails with. -/
theorem FailsWith.bind {x : Load α} {f : α → Load β} (hx : FailsWith allowed x)
    (hf : ∀ a, FailsWith allowed (f a)) : FailsWith allowed (x >>= f) := by
  intro catalog fault catalog' h
  simp only [Bind.bind, EStateM.bind] at h
  split at h
  · exact hf _ _ _ _ h
  · rename_i hfault
    cases h
    exact hx _ _ _ hfault

/-- Giving a value does not fail. -/
theorem failsWith_pure (a : α) : FailsWith allowed (pure a) := by
  intro catalog fault catalog' h
  cases h

/-- Changing the catalog and giving something of it does not fail. -/
theorem failsWith_modifyGet (f : Catalog → α × Catalog) : FailsWith allowed (modifyGet f) := by
  intro catalog fault catalog' h
  cases h

/-- Changing the catalog does not fail. -/
theorem failsWith_modify (f : Catalog → Catalog) : FailsWith allowed (modify f) :=
  failsWith_modifyGet _

/-- A phase that is repeated for every item of a list fails as it does for one. -/
theorem failsWith_forM {items : List α} {f : α → Load Unit}
    (hf : ∀ a, FailsWith allowed (f a)) : FailsWith allowed (items.forM f) := by
  induction items with
  | nil => exact failsWith_pure _
  | cons a items ih => exact (hf a).bind fun _ => ih

/-- A phase that is repeated to gather what it gives fails as it does for one item. -/
theorem failsWith_mapM {items : List α} {f : α → Load β}
    (hf : ∀ a, FailsWith allowed (f a)) : FailsWith allowed (items.mapM f) := by
  induction items with
  | nil =>
    rw [List.mapM_nil]
    exact failsWith_pure _
  | cons a items ih =>
    rw [List.mapM_cons]
    exact (hf a).bind fun _ => ih.bind fun _ => failsWith_pure _

/-- A declaration fails only because it is wrong in itself. -/
theorem failsWith_declared (hd : ∀ error, allowed (.decode error)) (x : Except DecodeError α) :
    FailsWith allowed (declared x) := by
  intro catalog fault catalog' h
  cases x <;> cases h
  exact hd _

/-- Adding fields fails where their declaration cannot be read. -/
theorem failsWith_addFields (hd : ∀ error, allowed (.decode error)) (source : ModuleSource)
    (types : List (TypeDeclaration × TypeId)) (id : TypeId) (ancestor : TypeDeclaration) :
    FailsWith allowed (addFields source types id ancestor) :=
  (failsWith_declared hd _).bind fun _ => failsWith_modify _

/-- Adding members fails where their declaration cannot be read. -/
theorem failsWith_addMembers (hd : ∀ error, allowed (.decode error)) (source : ModuleSource)
    (type : TypeDeclaration) (id : TypeId) : FailsWith allowed (addMembers source type id) := by
  refine (failsWith_declared hd _).bind fun constructors => ?_
  refine (failsWith_forM fun _ => failsWith_modify _).bind fun _ => ?_
  exact (failsWith_declared hd _).bind fun methods => failsWith_forM fun _ => failsWith_modify _

end Failing

/-- Every fault of the computation rejects the module. -/
def Rejects {α : Type} (x : Load α) : Prop :=
  ∀ catalog fault catalog', x catalog = .error fault catalog' → fault.IsRejection

/-- The check for cycles fails by rejecting the module. -/
theorem rejects_refuseCycles (ids : List TypeId) : Rejects (refuseCycles ids) := by
  refine FailsWith.bind (fun _ _ _ h => nomatch h) fun catalog => ?_
  split
  · intro _ fault _ h
    cases h
    exact .resolve _
  · exact failsWith_pure _

/-- A load fails by rejecting its module. -/
theorem rejects_addModule (source : ModuleSource) : Rejects (addModule source) := by
  refine (failsWith_modifyGet _).bind fun assembly => ?_
  refine (failsWith_mapM fun type => failsWith_modifyGet _).bind fun ids => ?_
  refine FailsWith.bind (rejects_refuseCycles ids) fun _ => ?_
  have hfields : ∀ type : TypeDeclaration × TypeId, FailsWith Fault.IsRejection
      ((lineage source.types source.assembly type.1).forM
        (addFields source (source.types.zip ids) type.2)) :=
    fun type => failsWith_forM (failsWith_addFields .decode source _ type.2)
  have hmembers : ∀ type : TypeDeclaration × TypeId,
      FailsWith Fault.IsRejection (addMembers source type.1 type.2) :=
    fun type => failsWith_addMembers .decode source type.1 type.2
  exact (failsWith_forM hfields).bind fun _ =>
    (failsWith_forM hmembers).bind fun _ => failsWith_pure _

end Load

/-- Loading a module is safe, whether it is accepted or not. -/
theorem Machine.safely_load (image : Image) {m : Machine} (hs : m.Sound) :
    m.Safely noValues (m.load image) := by
  unfold load loadModule
  split
  · exact ⟨hs.elsewhere rfl rfl rfl, .refl m, holds_nil _⟩
  · rename_i hl
    have hrejection := Load.rejects_addModule image.source _ _ _ hl
    exact ⟨hs.elsewhere rfl rfl rfl, .refl m, hrejection.not_isMissing⟩

/-! ## Actions of a host -/

/-- What a host does with a machine. -/
inductive Action where
  | load (image : Image)
  | start (texts : List String)
  | call (id : MethodId) (arguments : List Value)
  | execute (id : MethodId)
  | collectGarbage
  | instantiate (type : TypeId)
  | allocString (text : String)
  | allocArray (elements : Elements)
  | allocList (items : Array Value)
  | setField (handle : Handle) (name : String) (value : Value)

namespace Action

open Machine

/-- The values that the host passes. -/
def values : Action → List Value
  | .call _ arguments => arguments
  | .allocArray elements => elements.values.toList
  | .allocList items => items.toList
  | .setField handle _ value => [.ref handle, value]
  | _ => []

/-- An outcome with only the values that it gives. -/
def given {α : Type} (values : α → List Value) : Outcome α → Outcome (List Value)
  | .ok a m => .ok (values a) m
  | .error fault m => .error fault m

/-- What is handed to a host does not change the machine. -/
theorem machine_given {α : Type} (values : α → List Value) (outcome : Outcome α) :
    (given values outcome).machine = outcome.machine := by
  cases outcome <;> rfl

/-- The outcome of an action with the values that the host gets; none if the fuel ran out. -/
def run (fuel : Nat) (m : Machine) : Action → Option (Outcome (List Value))
  | .load image => some (given noValues (m.load image))
  | .start texts => (m.start fuel texts).map (given Option.toList)
  | .call id arguments => (m.call fuel id arguments).map (given Option.toList)
  | .execute id => (m.execute fuel id).map (given Option.toList)
  | .collectGarbage => some (.ok [] m.collectGarbage.2)
  | .instantiate type => some (given (fun handle => [.ref handle]) (Exec.instantiate type m))
  | .allocString text => some (given (fun v => [v]) (Exec.allocString text m))
  | .allocArray elements => some (given (fun v => [v]) (Exec.allocArray elements m))
  | .allocList items => some (given (fun v => [v]) (Exec.allocList items m))
  | .setField handle name value => some (given noValues (Exec.setField handle name value m))

/-- What every outcome of an action on a sound machine is like. -/
def Soundly : Outcome (List Value) → Prop
  | .ok values m => m.Sound ∧ m.Holds values
  | .error fault m => m.Sound ∧ ¬ fault.IsMissing

/-- What is handed to a host after a safe action leaves a sound machine. -/
theorem soundly_given {α : Type} {values : α → List Value} {m : Machine} {outcome : Outcome α}
    (h : m.Safely values outcome) : Soundly (given values outcome) := by
  cases outcome with
  | ok a m' => exact ⟨h.1, h.2.2⟩
  | error fault m' => exact ⟨h.1, h.2.2⟩

/-- An action that passes live references on a sound machine ends soundly. -/
theorem soundly_run {action : Action} {fuel : Nat} {m : Machine} {outcome : Outcome (List Value)}
    (hs : m.Sound) (hv : m.Holds action.values) (h : action.run fuel m = some outcome) :
    Soundly outcome := by
  cases action with
  | load image =>
    cases h
    exact soundly_given (safely_load image hs)
  | start texts =>
    obtain ⟨ended, he, rfl⟩ := Option.map_eq_some_iff.mp h
    exact soundly_given (safely_start hs he)
  | call id arguments =>
    obtain ⟨ended, he, rfl⟩ := Option.map_eq_some_iff.mp h
    exact soundly_given (safely_runCall hs hv he)
  | execute id =>
    obtain ⟨ended, he, rfl⟩ := Option.map_eq_some_iff.mp h
    exact soundly_given (safely_execute hs he)
  | collectGarbage =>
    cases h
    exact ⟨hs.collectGarbage, holds_nil _⟩
  | instantiate type =>
    cases h
    exact soundly_given ((Exec.composed_instantiate type).safely hs (holds_nil m))
  | allocString text =>
    cases h
    exact soundly_given ((Exec.composed_allocString text).safely hs (holds_nil m))
  | allocArray elements =>
    cases h
    exact soundly_given ((Exec.composed_allocArray fun _ hm => hm).safely hs hv)
  | allocList items =>
    cases h
    exact soundly_given ((Exec.composed_allocList fun _ hm => hm).safely hs hv)
  | setField handle name value =>
    cases h
    have hcomposed : Exec.Composed [.ref handle, value] (Exec.setField handle name value)
        noValues :=
      Exec.composed_setField name List.mem_cons_self (.of_subset (by simp))
    exact soundly_given (hcomposed.safely hs hv)

end Action

/-- The machines that a host gets to, by one action after another, from a new machine. It passes
only references that are live at that moment. -/
inductive Reachable (options : Options) (files : Files) : Machine → Prop
  | new : Reachable options files (Machine.new options files)
  | act {m : Machine} {outcome : Outcome (List Value)} (action : Action) (fuel : Nat)
      (h : Reachable options files m) (hv : m.Holds action.values)
      (hr : action.run fuel m = some outcome) : Reachable options files outcome.machine

/-- The machine after an action; the same machine if the fuel ran out. -/
def Action.advance (fuel : Nat) (m : Machine) (action : Action) : Machine :=
  ((action.run fuel m).map Outcome.machine).getD m

/-- An action that passes live references leads from a machine of a history to another one. -/
theorem Reachable.advance {options : Options} {files : Files} {m : Machine}
    (h : Reachable options files m) (fuel : Nat) (action : Action)
    (hv : m.Holds action.values) : Reachable options files (Action.advance fuel m action) := by
  unfold Action.advance
  cases hr : action.run fuel m with
  | none => exact h
  | some outcome => exact .act action fuel h hv hr

/-- A new machine is sound, since it refers to nothing. -/
theorem sound_new {options : Options} (hc : options.heapCapacity ≤ 2 ^ 32) (files : Files) :
    (Machine.new options files).Sound := by
  refine ⟨Heap.wellFormed_empty _, hc, ?_, ?_, ?_⟩
  · intro frame hf
    cases hf
  · exact Machine.holds_nil _
  · intro handle object ho
    have hnone : (Heap.empty options.heapCapacity).get? handle = none :=
      Heap.get?_eq_none_of_size_le (Nat.zero_le _)
    exact nomatch hnone.symm.trans ho

/-- Every machine that a host reaches is sound. -/
theorem Reachable.sound {options : Options} {files : Files} (hc : options.heapCapacity ≤ 2 ^ 32)
    {m : Machine} (h : Reachable options files m) : m.Sound := by
  induction h with
  | new => exact sound_new hc files
  | @act _ outcome _ _ _ hv hr ih =>
    have hout := Action.soundly_run ih hv hr
    cases outcome with
    | ok values m' => exact hout.1
    | error fault m' => exact hout.1

/-- After every action of a host that passes only live references, whether it succeeded or failed,
every reference in a frame, a static field or a live object names a live object. So no action fails
because a handle names none. -/
theorem no_dangling_references {options : Options} {files : Files}
    (hc : options.heapCapacity ≤ 2 ^ 32) {m : Machine} (h : Reachable options files m) :
    m.NoDangling ∧
      ∀ (action : Action) (fuel : Nat) (fault : Fault) (m' : Machine), m.Holds action.values →
        action.run fuel m = some (.error fault m') →
        ∀ handle, fault ≠ .heap (.notFound handle) := by
  have hs := h.sound hc
  refine ⟨hs.noDangling, ?_⟩
  rintro action fuel fault m' hv hr handle rfl
  have hout : Action.Soundly (.error _ m') := Action.soundly_run hs hv hr
  exact hout.2 ⟨handle, rfl⟩

/-- A module with one method, which stores its argument in a static field. -/
def keeper : Image where
  name := "Keeper"
  types := [{
    nameSpace := ""
    name := "Keeper"
    base := none
    fields := []
    constructors := []
    methods := [{
      name := "Keep"
      signature := "static (string)void"
      isAbstract := false
      isVirtual := false
      -- Loads the argument, stores it in the field and returns.
      code := [0x02, 0x80, 0x01, 0x00, 0x00, 0x04, 0x2A] }] }]
  strings := .empty
  members := .ofList [(⟨0x04000001⟩, .field "Keeper" "kept" (some "string"))]

/-- A machine on which the module has kept a list with one string. Another string was lost. -/
def listKept : Machine :=
  let loaded := Action.advance 0 (Machine.new {} .empty) (.load keeper)
  let named := Action.advance 0 loaded (.allocString "kept")
  let listed := Action.advance 0 named (.allocList #[.ref ⟨0, 0⟩])
  let prepared := Action.advance 0 listed (.allocString "lost")
  Action.advance 4 prepared (.call ⟨32⟩ [.ref ⟨1, 0⟩])

open Machine in
/-- Only references that are live are passed on the way to the machine. -/
private theorem reachable_listKept : Reachable {} .empty listKept := by
  have hloaded := Reachable.new.advance 0 (.load keeper) (holds_nil (.new {} .empty))
  have hnamed := hloaded.advance 0 (.allocString "kept") (holds_nil _)
  have hlisted := hnamed.advance 0 (.allocList #[.ref ⟨0, 0⟩]) <| holds_ref.mpr <| by
    rw [Heap.Live]
    decide +kernel
  have hprepared := hlisted.advance 0 (.allocString "lost") (holds_nil _)
  exact hprepared.advance 4 (.call ⟨32⟩ [.ref ⟨1, 0⟩]) <| holds_ref.mpr <| by
    rw [Heap.Live]
    decide +kernel

open Machine in
/-- A collection removes the string that was lost. The list in the static field and the string in
the list stay, and all references to them are good. -/
theorem no_dangling_references_collected :
    let collected := listKept.collectGarbage.2
    listKept.heap.live = 3 ∧ collected.heap.live = 2 ∧
      collected.statics.values = [.ref ⟨1, 0⟩] ∧
      collected.listOf ⟨1, 0⟩ = .ok #[.ref ⟨0, 0⟩] ∧
      collected.textOf (.ref ⟨0, 0⟩) = .ok "kept" ∧
      collected.NoDangling := by
  intro collected
  have hheap : listKept.heap = ⟨#[⟨0, some ⟨⟨7⟩, [.text "kept"]⟩⟩,
      ⟨0, some ⟨⟨10⟩, [.list #[.ref ⟨0, 0⟩]]⟩⟩, ⟨0, some ⟨⟨7⟩, [.text "lost"]⟩⟩], [], 65536, 3⟩ := by
    decide +kernel
  have hroots : listKept.roots = [⟨1, 0⟩] := by decide +kernel
  have hkept : (listKept.heap.collect listKept.roots).2 = ⟨#[⟨0, some ⟨⟨7⟩, [.text "kept"]⟩⟩,
      ⟨0, some ⟨⟨10⟩, [.list #[.ref ⟨0, 0⟩]]⟩⟩, ⟨1, none⟩], [2], 65536, 2⟩ := by
    have hmarks : Heap.marksFrom ⟨#[⟨0, some ⟨⟨7⟩, [.text "kept"]⟩⟩,
        ⟨0, some ⟨⟨10⟩, [.list #[.ref ⟨0, 0⟩]]⟩⟩, ⟨0, some ⟨⟨7⟩, [.text "lost"]⟩⟩], [], 65536, 3⟩
        [⟨1, 0⟩] = #[true, true, false] := by cbv
    rw [hheap, hroots, Heap.collect_eq, hmarks]
    rfl
  have hcollected : collected = { listKept with
      heap := ⟨#[⟨0, some ⟨⟨7⟩, [.text "kept"]⟩⟩, ⟨0, some ⟨⟨10⟩, [.list #[.ref ⟨0, 0⟩]]⟩⟩,
        ⟨1, none⟩], [2], 65536, 2⟩ } := by
    rw [← hkept]
    rfl
  refine ⟨by rw [hheap], by rw [hcollected], by decide +kernel, ?_, ?_, ?_⟩
  · rw [hcollected]
    decide +kernel
  · rw [hcollected]
    decide +kernel
  · have hreached : Reachable {} .empty (Action.advance 0 listKept .collectGarbage) :=
      reachable_listKept.advance 0 .collectGarbage (holds_nil _)
    exact (no_dangling_references (by decide) hreached).1

end ManagedCode
