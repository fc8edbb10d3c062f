import ManagedCode.Proofs.Catalog.Numbering
import ManagedCode.Proofs.Execution.Layout
import ManagedCode.Proofs.Execution.Receivers

/-!
# Numbers that a machine keeps

Objects and static fields keep the number of their type, frames those of their method and of its
caller, and all of them are used without asking the catalog whether it knows them. It does: every
number that a machine keeps was given out by its catalog. A run takes its numbers from the answers
of the catalog, numbers stay given out when modules are loaded, and so it is enough that the host
makes up none.
-/

namespace ManagedCode

/-- The method of a frame and its caller were given out by the catalog. -/
structure Frame.Known (catalog : Catalog) (frame : Frame) : Prop where
  method : frame.method.index < catalog.methods.size
  caller : ∀ id, frame.caller = some id → id.index < catalog.methods.size

/-- The catalog gave out the number with which a work begins. -/
def Work.Known (catalog : Catalog) : Work → Prop
  | .call id _ => id.index < catalog.methods.size
  | .body .. => True

namespace Machine

/-- Every number that the machine keeps beside its catalog was given out by the catalog. -/
structure HoldsKnown (m : Machine) : Prop where
  string : m.core.string.index < m.catalog.types.size
  array : m.core.array.index < m.catalog.types.size
  list : m.core.list.index < m.catalog.types.size
  objects : ∀ object ∈ m.heap.objects, object.type.index < m.catalog.types.size
  frames : ∀ frame ∈ m.calls.frames, frame.Known m.catalog
  lastExited : ∀ frame, m.calls.lastExited = some frame → frame.Known m.catalog
  statics : ∀ entry ∈ m.statics.entries, entry.1.1.index < m.catalog.types.size

/-- The numbers of the catalog are in order, and the machine keeps no others. -/
structure Numbered (m : Machine) : Prop extends m.HoldsKnown where
  catalog : m.catalog.Numbered

section Keeping

variable {m m' : Machine}

/-! ## Changes within a frame -/

/-- The numbers stay in order with frames of known methods. -/
theorem Numbered.withCalls (h : m.Numbered) {calls : CallStack}
    (hf : ∀ frame ∈ calls.frames, frame.Known m.catalog)
    (hl : ∀ frame, calls.lastExited = some frame → frame.Known m.catalog) :
    Numbered { m with calls } :=
  { h with frames := hf, lastExited := hl }

/-- The numbers stay in order with objects of known types. -/
theorem Numbered.withHeap (h : m.Numbered) {heap : Heap}
    (ho : ∀ object ∈ heap.objects, object.type.index < m.catalog.types.size) :
    Numbered { m with heap } :=
  { h with objects := ho }

/-- The running frame may change as long as it is that of its method and caller. -/
theorem Numbered.modifyTop (h : m.Numbered) {f : Frame → Frame}
    (hf : ∀ frame, m.calls.top? = some frame →
      (f frame).caller = frame.caller ∧ (f frame).method = frame.method) :
    Numbered { m with calls := m.calls.modifyTop f } := by
  apply h.withCalls
  · intro frame hm
    cases hframes : m.calls.frames with
    | nil =>
      rw [CallStack.modifyTop, hframes] at hm
      exact h.frames frame hm
    | cons top callers =>
      rw [CallStack.frames_modifyTop hframes] at hm
      rcases List.mem_cons.mp hm with rfl | hm
      · have htop : m.calls.top? = some top := by rw [CallStack.top?, hframes, List.head?_cons]
        obtain ⟨hcaller, hmethod⟩ := hf top htop
        have hknown := h.frames top (hframes ▸ List.mem_cons_self)
        exact ⟨hmethod ▸ hknown.method, hcaller ▸ hknown.caller⟩
      · exact h.frames frame (hframes ▸ List.mem_cons_of_mem _ hm)
  · rw [CallStack.lastExited_modifyTop]
    exact h.lastExited

/-- The numbers stay in order when a static field of a known type is stored. -/
theorem Numbered.setStatic (h : m.Numbered) {type : TypeId}
    (ht : type.index < m.catalog.types.size) (name : String) (value : Value) :
    Numbered { m with statics := m.statics.set type name value } := by
  refine { h with statics := fun entry hm => ?_ }
  rcases List.mem_cons.mp hm with rfl | hm
  · exact ht
  · exact h.statics entry (List.mem_of_mem_filter hm)

/-- What declares a method was given out; where the method was not, the first type stands for it. -/
theorem Numbered.declaringType_lt (h : m.Numbered) (id : MethodId) :
    (m.catalog.method id).declaringType.index < m.catalog.types.size := by
  by_cases hid : id.index < m.catalog.methods.size
  · exact h.catalog.membered.declaring id hid
  · have hnone : m.catalog.method id = default := by simp [Catalog.method, hid]
    rw [hnone]
    exact Nat.lt_of_le_of_lt (Nat.zero_le _) h.string

/-- The objects that programs make are of known types. -/
theorem Makes.type_lt {object : Object} (hm : m.Makes object) (h : m.Numbered) :
    object.type.index < m.catalog.types.size := by
  cases hm with
  | string text => exact h.string
  | array elements hlimit => exact h.array
  | list items => exact h.list
  | constructed id => exact h.declaringType_lt id

/-- The numbers stay in order when an object of a known type is added. -/
theorem Numbered.add (h : m.Numbered) {stored : Object}
    (hs : stored.type.index < m.catalog.types.size) :
    Numbered { m with heap := (m.heap.add stored).2 } := by
  apply h.withHeap
  intro object ho
  rcases Heap.mem_objects_add ho with rfl | ho
  · exact hs
  · exact h.objects object ho

/-- An object may change as long as it is of the same type. -/
theorem Numbered.modify (h : m.Numbered) (handle : Handle) {f : Object → Object}
    (hf : ∀ object, (f object).type = object.type) :
    Numbered { m with heap := m.heap.modify handle f } := by
  apply h.withHeap
  intro object ho
  rcases Heap.mem_objects_modify ho with ho | ⟨before, hbefore, rfl⟩
  · exact h.objects object ho
  · rw [hf]
    exact h.objects before (Heap.mem_objects_of_get? hbefore)

instance : Steady Numbered where
  frame hf h := h.modifyTop hf
  static ht name value h := h.setStatic (h.catalog.closed.answers.resolveType ht) name value
  write _ h := { h with }
  files _ h := { h with }
  make _ hm h := h.add (hm.type_lt h)
  setItems _ _ h := h.modify _ fun _ => rfl
  setElement _ _ _ := Exec.retained_query_bind fun _ _ h => h.modify _ fun _ => rfl

/-- Storing a field does not change the type of an object. -/
theorem retains_setField_numbered (handle : Handle) (name : String) (v : Value) :
    Exec.Retains Numbered (Exec.setField handle name v) :=
  fun _ => Exec.retained_query_bind fun _ _ h => h.modify _ fun _ => rfl

/-- Every instruction keeps the numbers in order. -/
theorem retains_step_numbered (inst : Instruction) : Exec.Retains Numbered (Exec.step inst) :=
  Exec.retains_step fun field _ handle v => retains_setField_numbered handle field.name v

/-! ## Calls -/

/-- A method that runs in place of another one was given out if the other one was. -/
theorem Numbered.lt_of_virtualTarget (h : m.Numbered) {named id : MethodId}
    (hn : named.index < m.catalog.methods.size)
    (ht : Exec.virtualTarget named m = .ok id m') : id.index < m.catalog.methods.size := by
  obtain ⟨ht, -⟩ := Exec.query_eq_ok_iff.mp ht
  dsimp only at ht
  split at ht
  · cases ht
    exact hn
  · split at ht
    · obtain ⟨object, -, ht⟩ := bind_eq_ok_iff.mp ht
      cases ht
      cases hf : m.catalog.findOverride? object.type (m.catalog.method named).name
          (m.catalog.method named).arity with
      | none => exact hn
      | some found => exact h.catalog.closed.answers.findOverride hf
    · cases ht
      exact hn

/-- The method that an instruction calls was given out. -/
theorem Numbered.lt_of_step (h : m.Numbered) {inst : Instruction} {id : MethodId}
    {arguments : List Value} {created : Option Value}
    (hs : Exec.step inst m = .ok (.call id arguments created) m') :
    id.index < m.catalog.methods.size := by
  have hanswers := h.catalog.closed.answers
  rcases Exec.step_call_cases hs with ⟨ref, hconstruct⟩ | ⟨⟨ref, named, hnamed, hid⟩, -⟩
  · obtain ⟨target, m₁, htarget, hrest⟩ := Exec.sequence_eq_ok_iff.mp hconstruct
    obtain ⟨htarget, rfl⟩ := Exec.query_eq_ok_iff.mp htarget
    obtain ⟨method, m₂, -, hrest⟩ := Exec.sequence_eq_ok_iff.mp hrest
    obtain ⟨handle, m₃, -, hrest⟩ := Exec.sequence_eq_ok_iff.mp hrest
    obtain ⟨_, m₄, -, hrest⟩ := Exec.sequence_eq_ok_iff.mp hrest
    obtain ⟨taken, m₅, -, hflow⟩ := Exec.sequence_eq_ok_iff.mp hrest
    cases hflow
    exact hanswers.resolveMethod (eq_ok_of_mapError htarget)
  · rcases hid with rfl | hvirtual
    · exact hanswers.resolveMethod hnamed
    · exact h.lt_of_virtualTarget (hanswers.resolveMethod hnamed) hvirtual

/-- A frame is entered for a method that was given out by one that was. -/
theorem Numbered.enter (h : m.Numbered) {id : MethodId} (hid : id.index < m.catalog.methods.size)
    {arguments : List Value} (he : Exec.enter id arguments m = .ok () m') : m'.Numbered := by
  obtain ⟨-, rfl⟩ := enter_eq_ok he
  refine h.withCalls (fun frame hm => ?_) h.lastExited
  rcases List.mem_cons.mp hm with rfl | hm
  · refine ⟨hid, fun caller hcaller => ?_⟩
    obtain ⟨top, htop, rfl⟩ := Option.map_eq_some_iff.mp hcaller
    exact (h.frames top (List.mem_of_head? htop)).method
  · exact h.frames frame hm

/-- The numbers stay in order when a frame is left. -/
theorem Numbered.exitFrame (h : m.Numbered) : m.exitFrame.Numbered := by
  unfold Machine.exitFrame CallStack.pop?
  cases hframes : m.calls.frames with
  | nil => exact h
  | cons top callers =>
    apply h.withCalls
    · intro frame hm
      exact h.frames frame (hframes ▸ List.mem_cons_of_mem _ hm)
    · intro frame hlast
      cases hlast
      exact h.frames top (hframes ▸ List.mem_cons_self)

/-- The result is taken from the frame that was left last, which stays that of its method. -/
theorem Numbered.takeResult (h : m.Numbered) (id : MethodId) :
    Numbered (Outcome.machine (Exec.takeResult id m)) := by
  unfold Exec.takeResult
  split
  · split
    · rename_i v rest hpop
      obtain ⟨frame, hframe, hpop⟩ := Option.bind_eq_some_iff.mp hpop
      obtain rfl := Frame.pop?_eq_some hpop
      have hknown := h.lastExited _ hframe
      refine h.withCalls h.frames fun left hleft => ?_
      cases hleft
      exact ⟨hknown.method, hknown.caller⟩
    · exact h
  · exact h

/-- The numbers stay in order when a method is left. -/
theorem Numbered.leave (id : MethodId) {worked : Outcome Unit} (h : worked.machine.Numbered) :
    (leave id worked).machine.Numbered := by
  cases worked with
  | ok _ m => exact h.exitFrame.takeResult id
  | error fault m => exact h.exitFrame

/-! ## Runs -/

/-- The numbers stay in order in every step, also in one that fails. -/
theorem Numbered.step (h : m.Numbered) {inst : Instruction} {stepped : Outcome Flow}
    (hs : Exec.step inst m = stepped) : stepped.machine.Numbered :=
  hs ▸ retains_step_numbered inst m h

/-- The callee is known where it is called. -/
theorem Numbered.known_of_step (h : m.Numbered) {inst : Instruction} {id : MethodId}
    {arguments : List Value} {created : Option Value}
    (hs : Exec.step inst m = .ok (.call id arguments created) m') :
    Work.Known m'.catalog (.call id arguments) := by
  rw [(sameCallers_step hs).catalog]
  exact h.lt_of_step hs

/-- The numbers stay in order when results are pushed. -/
theorem Numbered.pushResults (h : m.Numbered) {result created : Option Value}
    {pushed : Outcome Unit} (hp : Exec.pushResults result created m = pushed) :
    pushed.machine.Numbered :=
  hp ▸ Exec.retains_pushResults result created m h

/-- However a work ends that begins with a number that was given out, the numbers stay in order. -/
theorem Ends.numbered {work : Work} {outcome : Outcome work.Result} (he : Ends work m outcome)
    (hw : work.Known m.catalog) (h : m.Numbered) : outcome.machine.Numbered := by
  induction he with
  | refused he =>
    obtain ⟨rfl, -⟩ := enter_eq_error he
    exact h
  | native he _ => exact .leave _ (Exec.retains_runNative _ _ (h.enter hw he))
  | interpreted he _ _ ih => exact .leave _ (ih trivial (h.enter hw he))
  | passed => exact h
  | faulted _ hs => exact h.step hs
  | left _ hs => exact h.step hs
  | next _ hs _ ih => exact ih trivial (h.step hs)
  | jump _ hs _ _ ih => exact ih trivial (h.step hs)
  | astray _ hs _ => exact h.step hs
  | calleeFaulted _ hs _ ih => exact ih (h.known_of_step hs) (h.step hs)
  | notResumed _ hs _ hp ih => exact (ih (h.known_of_step hs) (h.step hs)).pushResults hp
  | resumed _ hs _ hp _ ihc ihr =>
    have hcalled := ihc (h.known_of_step hs) (h.step hs)
    exact ihr trivial (hcalled.pushResults hp)

/-- So they are on every machine that a run passes, whether it ends or not. -/
theorem Passes.numbered {work : Work} (hp : Passes work m m') (hw : work.Known m.catalog)
    (h : m.Numbered) : m'.Numbered := by
  induction hp with
  | start => exact h
  | ended he => exact he.numbered hw h
  | entered he => exact h.enter hw he
  | native he _ => exact Exec.retains_runNative _ _ (h.enter hw he)
  | interpreted he _ _ ih => exact ih trivial (h.enter hw he)
  | evaluated _ => exact h.step rfl
  | next _ hs _ ih => exact ih trivial (h.step hs)
  | jump _ hs _ _ ih => exact ih trivial (h.step hs)
  | callee _ hs _ ih => exact ih (h.known_of_step hs) (h.step hs)
  | returned _ hs hc => exact (hc.numbered (h.known_of_step hs) (h.step hs)).pushResults rfl
  | resumed _ hs hc hp _ ih =>
    have hcalled := hc.numbered (h.known_of_step hs) (h.step hs)
    exact ih trivial (hcalled.pushResults hp)

/-- The numbers stay in order in every call of a known method. -/
theorem Numbered.call (h : m.Numbered) {fuel : Nat} {id : MethodId}
    (hid : id.index < m.catalog.methods.size) {arguments : List Value}
    {outcome : Outcome (Option Value)} (hc : m.call fuel id arguments = some outcome) :
    outcome.machine.Numbered :=
  (ends_of_call hc).numbered hid h

/-- The numbers stay in order when a known method is executed. -/
theorem Numbered.execute (h : m.Numbered) {fuel : Nat} {id : MethodId}
    (hid : id.index < m.catalog.methods.size) {outcome : Outcome (Option Value)}
    (he : m.execute fuel id = some outcome) : outcome.machine.Numbered := by
  have htaken := Exec.retains_takeArguments id m h
  have hcatalog : (Outcome.machine (Exec.takeArguments id m)).catalog = m.catalog := by
    have htake : Exec.Composed [] (Exec.takeArguments id) fun arguments => arguments :=
      Exec.composed_takeArguments id
    exact (htake.sameCallers m).catalog
  unfold Machine.execute at he
  cases ht : Exec.takeArguments id m with
  | error fault m' =>
    rw [ht] at he htaken
    cases he
    exact htaken
  | ok arguments m' =>
    rw [ht] at he htaken hcatalog
    obtain ⟨ended, hcall, rfl⟩ := Option.map_eq_some_iff.mp he
    have hended := Numbered.call htaken (hcatalog ▸ hid) hcall
    cases ended with
    | error fault m'' => exact hended
    | ok result m'' =>
      dsimp only
      split
      · exact hended.modifyTop fun _ _ => ⟨rfl, rfl⟩
      · exact hended

/-- A program starts at a known method, so the numbers stay in order. -/
theorem Numbered.start (h : m.Numbered) {fuel : Nat} {texts : List String}
    {outcome : Outcome (Option Value)} (hs : m.start fuel texts = some outcome) :
    outcome.machine.Numbered := by
  unfold Machine.start at hs
  cases he : m.catalog.entryPoint? with
  | none =>
    rw [he] at hs
    cases hs
    exact h
  | some id =>
    have hprepared := retains_startArguments id texts m h
    have hcatalog : (Outcome.machine (startArguments id texts m)).catalog = m.catalog :=
      ((composed_startArguments id texts).sameCallers m).catalog
    rw [he] at hs
    dsimp only at hs
    cases hp : startArguments id texts m with
    | error fault m' =>
      rw [hp] at hs hprepared
      cases hs
      exact hprepared
    | ok arguments m' =>
      rw [hp] at hs hprepared hcatalog
      exact Numbered.call hprepared (hcatalog ▸ h.catalog.closed.answers.entryPoint he) hs

/-! ## Actions -/

/-- Loading a module keeps the numbers in order, whether it succeeds or fails. -/
theorem Numbered.loadModule (h : m.Numbered) (source : ModuleSource) :
    Numbered (Outcome.machine (m.loadModule source)) := by
  rw [machine_loadModule]
  have hextends := (Load.announced_addModule source m.catalog).extension
  have htypes := hextends.size_types
  have hmethods : m.catalog.methods.size ≤
      (Load.after (Load.addModule source m.catalog)).methods.size :=
    size_le_of_getElem? hextends.methods
  have hknown {frame : Frame} (hf : frame.Known m.catalog) :
      frame.Known (Load.after (Load.addModule source m.catalog)) :=
    ⟨hf.method.trans_le hmethods, fun id hid => (hf.caller id hid).trans_le hmethods⟩
  exact {
    string := h.string.trans_le htypes
    array := h.array.trans_le htypes
    list := h.list.trans_le htypes
    objects := fun object ho => (h.objects object ho).trans_le htypes
    frames := fun frame hf => hknown (h.frames frame hf)
    lastExited := fun frame hf => hknown (h.lastExited frame hf)
    statics := fun entry he => (h.statics entry he).trans_le htypes
    catalog := h.catalog.addModule source }

/-- Garbage collection only takes objects away. -/
theorem Numbered.collectGarbage (h : m.Numbered) : m.collectGarbage.2.Numbered :=
  h.withHeap fun object ho => h.objects object (Heap.mem_objects_collect ho)

/-- The numbers stay in order when an object of a known type is made. -/
theorem Numbered.instantiate (h : m.Numbered) {type : TypeId}
    (ht : type.index < m.catalog.types.size) :
    Numbered (Outcome.machine (Exec.instantiate type m)) := by
  have hmake : Exec.instantiate type m = Exec.store ⟨type, Exec.initialSlots m type⟩ m := rfl
  rw [hmake, Exec.store]
  split
  · exact h
  · exact h.add ht

/-- The numbers of a new machine are in order. -/
theorem numbered_new (options : Options) (files : Files) :
    (Machine.new options files).Numbered where
  string := Library.hasFields_string.1
  array := Library.hasFields_array.1
  list := Library.hasFields_list.1
  objects := by
    intro object hm
    have hnone : (Machine.new options files).heap.objects = [] := Heap.objects_empty _
    rw [hnone] at hm
    cases hm
  frames _ hm := nomatch hm
  lastExited _ hl := nomatch hl
  statics _ hm := nomatch hm
  catalog := Library.numbered_catalog

end Keeping
end Machine

open Machine

/-- The host passes numbers that the catalog gave out. -/
def Action.Known (catalog : Catalog) : Action → Prop
  | .call id _ | .execute id => id.index < catalog.methods.size
  | .instantiate type => type.index < catalog.types.size
  | _ => True

/-- Every action with such numbers keeps the numbers in order, whether it succeeds or fails. -/
theorem Action.numbered_run {action : Action} {fuel : Nat} {m : Machine}
    {outcome : Outcome (List Value)} (h : m.Numbered) (hk : action.Known m.catalog)
    (hr : action.run fuel m = some outcome) : outcome.machine.Numbered := by
  have hgiven {α : Type} {values : α → List Value} {ended : Outcome α}
      (he : ended.machine.Numbered) : (given values ended).machine.Numbered := by
    rwa [machine_given]
  cases action with
  | load image =>
    cases hr
    exact hgiven (h.loadModule image.source)
  | start texts =>
    obtain ⟨ended, he, rfl⟩ := Option.map_eq_some_iff.mp hr
    exact hgiven (h.start he)
  | call id arguments =>
    obtain ⟨ended, he, rfl⟩ := Option.map_eq_some_iff.mp hr
    exact hgiven (h.call hk he)
  | execute id =>
    obtain ⟨ended, he, rfl⟩ := Option.map_eq_some_iff.mp hr
    exact hgiven (h.execute hk he)
  | collectGarbage =>
    cases hr
    exact h.collectGarbage
  | instantiate type =>
    cases hr
    exact hgiven (h.instantiate hk)
  | allocString text =>
    cases hr
    exact hgiven (Exec.retains_allocString text m h)
  | allocArray elements =>
    cases hr
    exact hgiven (Exec.retains_allocArray elements m h)
  | allocList items =>
    cases hr
    exact hgiven (Exec.retains_allocList items m h)
  | setField handle name value =>
    cases hr
    exact hgiven (retains_setField_numbered handle name value m h)

/-! ## Histories -/

/-- The machines that a host gets to from a new machine by loading modules and by actions, and those
that its calls pass on the way; a start only makes its arguments before it calls. The host makes up
no numbers. -/
inductive Proper (options : Options) (files : Files) : Machine → Prop
  | new : Proper options files (Machine.new options files)
  | load {m : Machine} (source : ModuleSource) (h : Proper options files m) :
      Proper options files (Outcome.machine (m.loadModule source))
  | act {m : Machine} {outcome : Outcome (List Value)} (action : Action) (fuel : Nat)
      (h : Proper options files m) (hk : action.Known m.catalog)
      (hr : action.run fuel m = some outcome) : Proper options files outcome.machine
  | within {m m' : Machine} (id : MethodId) (arguments : List Value) (h : Proper options files m)
      (hk : id.index < m.catalog.methods.size) (hp : Passes (.call id arguments) m m') :
      Proper options files m'

/-- The numbers are in order on every machine that a proper history leads to. -/
theorem Proper.numbered {options : Options} {files : Files} {m : Machine}
    (h : Proper options files m) : m.Numbered := by
  induction h with
  | new => exact numbered_new options files
  | load source _ ih => exact ih.loadModule source
  | act action fuel _ hk hr ih => exact Action.numbered_run ih hk hr
  | within id arguments _ hk hp ih => exact hp.numbered hk ih

/-- A proper history may go on with any action that names known types and methods. -/
theorem Proper.advance {options : Options} {files : Files} {m : Machine}
    (h : Proper options files m) (fuel : Nat) (action : Action) (hk : action.Known m.catalog) :
    Proper options files (Action.advance fuel m action) := by
  unfold Action.advance
  cases hr : action.run fuel m with
  | none => exact h
  | some outcome => exact .act action fuel h hk hr

/-- In every machine of a proper history, whatever was loaded, called and removed, and whatever of
it failed: every type is listed once, by its assembly, and every method once, by its declaring type
under its kind; every number that the catalog mentions or the machine keeps was given out; and so
was every number with which the catalog answers, and that of every method that an instruction
calls. -/
theorem numbers_given_out {options : Options} {files : Files} {m : Machine}
    (h : Proper options files m) :
    m.catalog.Accounted ∧ m.HoldsKnown ∧ m.catalog.Answers ∧
      ∀ (inst : Instruction) (id : MethodId) (arguments : List Value) (created : Option Value)
        (m' : Machine), Exec.step inst m = .ok (.call id arguments created) m' →
        id.index < m.catalog.methods.size := by
  have hm := h.numbered
  refine ⟨hm.catalog.accounted, hm.toHoldsKnown, hm.catalog.closed.answers, ?_⟩
  intro inst id arguments created m' hs
  exact hm.lt_of_step hs

/-- The number of the built-in method that gives the line break. -/
def lineBreak : MethodId := ⟨31⟩

/-- A machine with one module loaded and another one refused, on which the host made an object and
called a built-in method. -/
def lineBreakCalled : Machine := Action.advance 1 shapesMade (.call lineBreak [])

private theorem proper_shapesMade : Proper {} .empty shapesMade := by
  have hnew : Proper {} .empty (Machine.new {} .empty) := .new
  have hloaded := hnew.advance 0 (.load shapes) trivial
  have hknown : 15 < (Action.advance 0 (Machine.new {} .empty) (.load shapes)).catalog.types.size :=
    by decide +kernel
  have hmade := hloaded.advance 0 (.instantiate ⟨15⟩) hknown
  have hrefused := hmade.advance 0 (.load circular) trivial
  exact hrefused.advance 0 (.allocArray (.zeros .int32 3)) trivial

/-- The types of the refused module are listed once each, and the frame that was left last keeps the
number of the built-in method. -/
theorem numbers_given_out_refused :
    lineBreakCalled.catalog.types.size = 18 ∧
    (lineBreakCalled.catalog.assemblies.toList.flatMap fun a => a.types).count ⟨17⟩ = 1 ∧
    lineBreakCalled.calls.lastExited.map Frame.method = some lineBreak ∧
    lineBreakCalled.catalog.methodName lineBreak = "System.Environment::get_NewLine" ∧
    lineBreakCalled.HoldsKnown := by
  have hknown : lineBreak.index < shapesMade.catalog.methods.size := by decide +kernel
  have hproper : Proper {} .empty lineBreakCalled :=
    proper_shapesMade.advance 1 (.call lineBreak []) hknown
  obtain ⟨haccounted, hholds, -⟩ := numbers_given_out hproper
  have hsize : lineBreakCalled.catalog.types.size = 18 := by decide +kernel
  refine ⟨hsize, (haccounted.typeOnce ⟨17⟩ (by rw [hsize]; decide)).1, ?_, ?_, hholds⟩
  · decide +kernel
  · decide +kernel

end ManagedCode
