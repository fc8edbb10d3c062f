import ManagedCode.Proofs.Catalog.Bodies

/-!
# Instructions have their operands

The only fault that says that an instruction lacks its operand is the one that an instruction raises
which cannot say what it asks for. No question to a machine, no native behaviour and no task raises
it: this is a matter of looking at each fault that they name, and the rules for sequences are tagged
so that the search for the others is automatic. Every instruction of a loaded body was decoded with
an operand of the form that its opcode prescribes, so no run ever raises it.
-/

namespace ManagedCode

/-- The fault says that an instruction lacks its operand. -/
@[grind] def Fault.LacksOperand : Fault → Prop
  | .missingOperand .. => True
  | _ => False

/-! ## Answers -/

/-- The answer is not the fault that an instruction lacks its operand. -/
inductive Supplied {α : Type} : Except Fault α → Prop
  | ok (a : α) : Supplied (.ok a)
  | error {fault : Fault} (h : ¬ fault.LacksOperand) : Supplied (.error fault)

section Answers

variable {α β : Type}

/-- An answer that is given is supplied. -/
theorem supplied_pure (a : α) : Supplied (pure a) := .ok a

/-- A fault is supplied if it is another one. -/
theorem supplied_throw {fault : Fault} (h : ¬ fault.LacksOperand) :
    Supplied (throw fault : Except Fault α) := .error h

/-- Questions that are asked one after the other are supplied if each of them is. -/
theorem Supplied.bind {x : Except Fault α} {f : α → Except Fault β} (hx : Supplied x)
    (hf : ∀ a, Supplied (f a)) : Supplied (x >>= f) := by
  cases hx with
  | ok a => exact hf a
  | error hx => exact .error hx

/-- What is made of a supplied answer is supplied. -/
theorem Supplied.map {x : Except Fault α} (hx : Supplied x) (f : α → β) : Supplied (x.map f) := by
  cases hx with
  | ok a => exact .ok (f a)
  | error hx => exact .error hx

/-- An error that becomes a fault of another kind is supplied. -/
theorem supplied_mapError {ε : Type} {f : ε → Fault} (x : Except ε α)
    (hf : ∀ e, ¬ (f e).LacksOperand) : Supplied (x.mapError f) := by
  cases x with
  | ok a => exact .ok a
  | error e => exact .error (hf e)

end Answers

attribute [grind .] Supplied.ok Supplied.error supplied_pure supplied_throw Supplied.bind
  Supplied.map supplied_mapError

/-- Operations on words fail for their numbers only. -/
@[grind .] theorem supplied_onWords {w : Nat} (op : BinaryOp) (a b : BitVec w) :
    Supplied (op.onWords a b) := by
  cases op <;> grind [BinaryOp.onWords, BinaryOp.divided, BinaryOp.dividedUn, BinaryOp.checked]

/-- Operations on floating-point numbers fail where there are none for them. -/
@[grind .] theorem supplied_onFloats (op : BinaryOp) (a b : Float) :
    Supplied (op.onFloats a b) := by
  cases op <;> grind [BinaryOp.onFloats]

namespace Value

variable (v w : Value)

/-- A binary operation fails for its numbers or because its operands do not go together. -/
@[grind .] theorem supplied_binary (op : BinaryOp) : Supplied (binary op v w) := by
  unfold binary
  split <;> grind [operandMismatch, BinaryOp.onInt32, BinaryOp.onInt64]

/-- A comparison fails because its operands do not go together. -/
@[grind .] theorem supplied_compare (op : CompareOp) : Supplied (Value.compare op v w) := by
  have hmismatch : ∀ expected found : String,
      Supplied (.error (.typeMismatch expected found) : Except Fault Bool) := by
    grind
  cases v with
  | int32 v | int64 v | float64 v =>
    cases w with
    | ref w | null => exact hmismatch _ _
    | _ => exact .ok _
  | ref v =>
    cases w with
    | ref w => cases op <;> exact .ok _
    | null => exact .ok _
    | _ => exact hmismatch _ _
  | null =>
    cases w with
    | ref w | null => exact .ok _
    | _ => exact hmismatch _ _

/-- A conversion fails because of its number or because there is none. -/
@[grind .] theorem supplied_convert (c : Conversion) : Supplied (convert c v) := by
  unfold convert
  split <;> grind [Conversion.onInt, mismatch]

/-- Only what is no number cannot be negated. -/
@[grind .] theorem supplied_negate : Supplied v.negate := by
  cases v <;> grind [negate, mismatch]

/-- Only what is no integer has no complement. -/
@[grind .] theorem supplied_complement : Supplied v.complement := by
  cases v <;> grind [complement, mismatch]

/-- A value that is no 32-bit integer is a mismatch. -/
@[grind .] theorem supplied_toInt32 : Supplied v.toInt32 := by
  cases v <;> grind [toInt32, mismatch]

/-- A value that is no integer is a mismatch. -/
@[grind .] theorem supplied_toIndex : Supplied v.toIndex := by
  cases v <;> grind [toIndex, mismatch]

/-- A value that is no reference is a mismatch. -/
@[grind .] theorem supplied_toHandle : Supplied v.toHandle := by
  cases v <;> grind [toHandle, mismatch]

end Value

namespace Machine

variable (m : Machine)

/-- Looking an object up fails because its handle is stale. -/
@[grind .] theorem supplied_object (handle : Handle) : Supplied (m.object handle) := by
  grind [object]

/-- Reading a text fails because there is no object or no text in it. -/
@[grind .] theorem supplied_textOf (v : Value) : Supplied (m.textOf v) := by
  unfold textOf
  grind [Value.mismatch]

/-- Showing a value fails where looking its object up does. -/
@[grind .] theorem supplied_display (v : Value) : Supplied (m.display v) := by
  cases v <;> grind [display]

/-- A value has the elements of an array or list, or asking for them fails. -/
@[grind .] theorem supplied_elements (v : Value) : Supplied (m.elements v) := by
  unfold elements
  grind

/-- Reading an array fails because there is none. -/
@[grind .] theorem supplied_arrayOf (handle : Handle) : Supplied (m.arrayOf handle) := by
  unfold arrayOf
  grind

/-- Reading a list fails because there is none. -/
@[grind .] theorem supplied_listOf (handle : Handle) : Supplied (m.listOf handle) := by
  unfold listOf
  grind

/-- Reading a field fails because of the object, the name or the form of the slot. -/
@[grind .] theorem supplied_fieldOf (handle : Handle) (name : String) :
    Supplied (m.fieldOf handle name) := by
  unfold fieldOf
  grind

/-- Comparing two values for equality fails where an object cannot be looked up. -/
@[grind .] theorem supplied_valuesEqual (v w : Value) : Supplied (m.valuesEqual v w) := by
  unfold valuesEqual
  grind

/-- A length is refused because it is negative or beyond the limit. -/
@[grind .] theorem supplied_checkArrayLength (length : Int) :
    Supplied (m.checkArrayLength length) := by
  grind [checkArrayLength]

/-- There are arguments unless no frame is active. -/
@[grind .] theorem supplied_arguments : Supplied m.arguments := by grind [arguments]

/-- A missing argument is another matter than a missing operand. -/
@[grind .] theorem supplied_argument (index : Nat) : Supplied (m.argument index) := by
  unfold argument
  grind

end Machine

/-- An index is refused because it is out of range. -/
@[grind .] theorem Elements.supplied_position (elements : Elements) (index : Int) :
    Supplied (elements.position index) := by
  grind [position]

/-- An element cannot be read because its index is out of range. -/
@[grind .] theorem Elements.supplied_get (elements : Elements) (index : Int) :
    Supplied (elements.get index) := by
  unfold Elements.get
  grind

/-- An element cannot be stored because of its index or the form of the value. -/
@[grind .] theorem Elements.supplied_plan (elements : Elements) (index : Int) (v : Value) :
    Supplied (elements.plan index v) := by
  unfold Elements.plan
  grind [Value.mismatch]

/-! ## Computations -/

namespace Exec

/-- The computation never raises the fault that an instruction lacks its operand. -/
def Supplied {α : Type} (x : Exec α) : Prop :=
  ∀ (m : Machine) (fault : Fault) (m' : Machine), x m = .error fault m' → ¬ fault.LacksOperand

variable {α β : Type}

/-- A computation that only gives a value is supplied. -/
theorem supplied_pure (a : α) : Supplied (pure a) := by
  intro m fault m' hraised
  cases hraised

/-- A computation that raises another fault is supplied. -/
theorem supplied_throw {fault : Fault} (h : ¬ fault.LacksOperand) :
    Supplied (throw fault : Exec α) := by
  intro m raised m' hraised
  cases hraised
  exact h

/-- A question to the machine is supplied if its answers are. -/
theorem supplied_query {f : Machine → Except Fault α} (h : ∀ m, ManagedCode.Supplied (f m)) :
    Supplied (query f) := by
  intro m fault m' hraised
  have hm := h m
  rw [query_apply] at hraised
  split at hraised
  · cases hraised
  · rename_i he
    cases hraised
    rw [he] at hm
    cases hm
    assumption

/-- A check is supplied if the answer is. -/
theorem supplied_check {answer : Except Fault α} (h : ManagedCode.Supplied answer) :
    Supplied (check answer) :=
  supplied_query fun _ => h

/-- Computations in sequence are supplied if each of them is. -/
theorem Supplied.bind {x : Exec α} {f : α → Exec β} (hx : Supplied x)
    (hf : ∀ a, Supplied (f a)) : Supplied (x >>= f) := by
  intro m fault m' hraised
  cases hxm : x m with
  | ok a m₁ =>
    rw [bind_of_ok f hxm] at hraised
    exact hf a m₁ fault m' hraised
  | error raised m₁ =>
    rw [bind_of_error f hxm] at hraised
    cases hraised
    exact hx m fault m' hxm

/-- A supplied computation may be carried out for every item of a list. -/
theorem supplied_mapM {f : α → Exec β} (hf : ∀ a, Supplied (f a)) (items : List α) :
    Supplied (items.mapM f) := by
  induction items with
  | nil => exact supplied_pure []
  | cons a items ih =>
    rw [List.mapM_cons]
    exact (hf a).bind fun _ => ih.bind fun _ => supplied_pure _

/-- A change of the machine cannot fail. -/
theorem supplied_update (f : Machine → Machine) : Supplied (update f) := by
  intro m fault m' hraised
  cases hraised

/-- Pushing fails because no frame is active. -/
theorem supplied_push (v : Value) : Supplied (push v) := by
  grind [Supplied, push]

/-- Popping fails because there is no value to pop. -/
theorem supplied_pop : Supplied pop := by
  grind [Supplied, pop]

/-- Taking values fails because there are too few. -/
theorem supplied_takeTop (count : Nat) : Supplied (takeTop count) := by
  grind [Supplied, takeTop]

/-- Slipping a value beneath others fails because there are too few. -/
theorem supplied_insertBeneath (depth : Nat) (v : Value) (method : String) :
    Supplied (insertBeneath depth v method) := by
  grind [Supplied, insertBeneath]

/-- Storing an object fails because the heap is full. -/
theorem supplied_store (object : Object) : Supplied (store object) := by
  grind [Supplied, store]

/-- Writing a file fails because of the file. -/
theorem supplied_writeFile (path text : String) : Supplied (writeFile path text) := by
  grind [Supplied, writeFile]

attribute [grind .] supplied_pure supplied_throw supplied_query supplied_check Supplied.bind
  supplied_mapM supplied_update supplied_push supplied_pop supplied_takeTop supplied_insertBeneath
  supplied_store supplied_writeFile

/-- Loading an argument fails because there is none of that number. -/
@[grind .] theorem supplied_loadArgument (index : Nat) : Supplied (loadArgument index) := by
  grind [loadArgument]

/-- Loading a variable fails because there is none of that number. -/
@[grind .] theorem supplied_loadLocal (index : Nat) : Supplied (loadLocal index) := by
  grind [loadLocal]

/-- A new string needs room on the heap only. -/
@[grind .] theorem supplied_allocString (text : String) : Supplied (allocString text) := by
  unfold allocString
  grind

/-- A new array needs room on the heap and a length within the limit. -/
@[grind .] theorem supplied_allocArray (elements : Elements) :
    Supplied (allocArray elements) := by
  unfold allocArray
  grind

/-- A new list needs room on the heap only. -/
@[grind .] theorem supplied_allocList (items : Array Value) : Supplied (allocList items) := by
  unfold allocList
  grind

/-- Storing an element fails because of the array, the index or the value. -/
@[grind .] theorem supplied_setElement (handle : Handle) (index : Int) (v : Value) :
    Supplied (setElement handle index v) := by
  unfold setElement modifyObject
  grind

/-- Storing a field fails where reading it does. -/
@[grind .] theorem supplied_setField (handle : Handle) (name : String) (v : Value) :
    Supplied (setField handle name v) := by
  unfold setField modifyObject
  grind

/-- A cast fails because the object or the type is unknown or of another kind. -/
@[grind .] theorem supplied_cast (target : TypeRef) (orNull : Bool) (v : Value) :
    Supplied (cast target orNull v) := by
  unfold cast
  grind

/-- A new object of a type needs room on the heap only. -/
@[grind .] theorem supplied_instantiate (type : TypeId) : Supplied (instantiate type) := by
  unfold instantiate
  grind

/-- The fault of a native behaviour is one of its own. -/
@[grind .] theorem supplied_fail (message : String) : Supplied (fail message : Exec α) := by
  unfold fail
  grind

/-- Taking the arguments of a method fails because there are too few values. -/
@[grind .] theorem supplied_takeArguments (id : MethodId) : Supplied (takeArguments id) := by
  unfold takeArguments
  grind

/-- No task raises the fault. -/
theorem supplied_perform (task : Task) : Supplied (perform task) := by
  cases task <;> unfold perform <;>
    grind [popTwo, popHandle, popIndex, storeArgument, storeLocal, resolveType, setStatic]

/-- An instruction raises the fault only if it cannot say what it asks for. -/
theorem supplied_step {inst : Instruction} (h : inst.task ≠ .missingOperand) :
    Supplied (step inst) := by
  have hperform := supplied_perform inst.task
  unfold step
  cases htask : inst.task with
  | missingOperand => exact absurd htask h
  | branch test target => cases test <;> grind [branches, popTwo]
  | switch targets => grind
  | call ref => grind [resolveMethod]
  | callVirtual ref =>
    unfold virtualTarget
    grind [resolveMethod]
  | construct ref =>
    unfold construct
    grind [resolveMethod]
  | _ => grind

end Exec

namespace Native

/-- A position is refused because it is out of range. -/
@[grind .] theorem supplied_position (index : Int64) (limit length : Nat) :
    Supplied (position index limit length) := by
  grind [position]

/-- A search fails where a comparison of it does. -/
@[grind .] theorem supplied_findValue (m : Machine) (wanted : Value) (start : Nat)
    (values : List Value) : Supplied (findValue m wanted start values) := by
  induction values generalizing start with
  | nil => exact .ok none
  | cons v values ih =>
    unfold findValue
    grind

/-- A native behaviour that lacks an argument has a fault of its own. -/
@[grind .] theorem supplied_argument (index : Nat) : Exec.Supplied (argument index) := by
  grind [argument]

/-- The receiver is the first argument, which has to be a reference. -/
@[grind .] theorem supplied_receiver : Exec.Supplied receiver := by
  grind [receiver]

/-- The characters to split at are read from the arguments. -/
@[grind .] theorem supplied_separators : Exec.Supplied separators := by
  unfold separators
  grind

/-- Two texts are compared once both have been read. -/
@[grind .] theorem supplied_equalTexts (v w : Value) : Exec.Supplied (equalTexts v w) := by
  unfold equalTexts
  grind

/-- A capacity is refused because it is negative or beyond the limit. -/
@[grind .] theorem supplied_checkCapacity : Exec.Supplied checkCapacity := by
  refine supplied_receiver.bind fun handle => ?_
  refine (Exec.supplied_query Machine.supplied_arguments).bind fun arguments => ?_
  split <;> grind

/-- An array of texts needs room on the heap and a length within the limit. -/
@[grind .] theorem supplied_pushTexts (texts : List (List Char)) :
    Exec.Supplied (pushTexts texts) := by
  unfold pushTexts
  grind

/-- The items of the receiver are those of a list, or reading them fails. -/
@[grind .] theorem supplied_receiverItems : Exec.Supplied receiverItems := by
  unfold receiverItems
  grind

/-- A position in a list is an integer in range, or it is refused. -/
@[grind .] theorem supplied_positionOf (v : Value) (length : Nat) (inclusive : Bool) :
    Exec.Supplied (positionOf v length inclusive) := by
  unfold positionOf
  grind

/-- A range in a list is checked by its two ends. -/
@[grind .] theorem supplied_rangeArguments : Exec.Supplied rangeArguments := by
  refine (supplied_argument 1).bind fun index => (supplied_argument 2).bind fun count => ?_
  refine supplied_receiverItems.bind fun items => ?_
  grind

/-- No native behaviour raises the fault. -/
theorem supplied_run (native : Native) : Exec.Supplied native.run := by
  cases native <;> unfold run <;>
    grind [textArgument, displayArgument, pushText, parseInt32, findArgument, Exec.setItems,
      Exec.modifyObject, Exec.readFile, Exec.write]

end Native

/-! ## Runs -/

namespace Exec

/-- No native behaviour says that an operand is missing. -/
theorem supplied_runNative (id : MethodId) : Supplied (runNative id) := by
  have hrun := Native.supplied_run
  unfold runNative
  grind

/-- Handing a result on fails because no frame is active. -/
theorem supplied_pushResults (result created : Option Value) :
    Supplied (pushResults result created) := by
  cases result <;> cases created <;> grind [pushResults, Option.forM]

/-- Taking a result fails because the frame that was left has none. -/
theorem supplied_takeResult (id : MethodId) : Supplied (takeResult id) := by
  grind [Supplied, takeResult]

/-- The arguments of a program become strings in an array. -/
theorem supplied_startArguments (id : MethodId) (texts : List String) :
    Supplied (Machine.startArguments id texts) := by
  unfold Machine.startArguments
  grind

end Exec

namespace Machine

/-- The outcome is not the fault that an instruction lacks its operand. -/
def Furnished {α : Type} : Outcome α → Prop
  | .ok _ _ => True
  | .error fault _ => ¬ fault.LacksOperand

/-- A supplied computation comes to a furnished outcome on every machine. -/
theorem Furnished.of_supplied {α : Type} {x : Exec α} (hx : Exec.Supplied x) (m : Machine) :
    Furnished (x m) := by
  cases hxm : x m with
  | ok a m' => trivial
  | error fault m' => exact hx m fault m' hxm

/-- Leaving a method passes its fault on, and adds one that tells of results only. -/
theorem furnished_leave {worked : Outcome Unit} (h : Furnished worked) (id : MethodId) :
    Furnished (leave id worked) := by
  cases worked with
  | ok _ m => exact .of_supplied (Exec.supplied_takeResult id) m.exitFrame
  | error fault m => exact h

end Machine

/-- Every instruction of a body says what it asks for. -/
def Body.IsClear (body : Body) : Prop := ∀ inst ∈ body.instructions, inst.task ≠ .missingOperand

/-- The instructions that a work steps through itself say what they ask for. -/
def Work.IsClear : Work → Prop
  | .call .. => True
  | .body stepped _ => stepped.IsClear

/-- In decoded bytes every instruction has the operand that its opcode asks for. -/
theorem Body.IsDecoded.isClear {body : Body} (h : body.IsDecoded) : body.IsClear := by
  obtain ⟨_, _, _, _, hoperands⟩ := h.decomposes
  exact fun inst hm => Instruction.task_ne_missingOperand (hoperands inst hm)

/-- A step of a clear body does not lack its operand. -/
theorem Body.IsClear.furnished_step {body : Body} (h : body.IsClear) {position : Nat}
    {inst : Instruction} (hg : body.get? position = some inst) {m : Machine}
    {outcome : Outcome Flow} (hs : Exec.step inst m = outcome) : Machine.Furnished outcome := by
  have hclear := h inst (Array.mem_of_getElem? hg)
  exact hs ▸ .of_supplied (Exec.supplied_step hclear) m

namespace Machine

/-- No work in which all instructions say what they ask for ends because one lacks its operand. -/
theorem Ends.furnished {work : Work} {m : Machine} {outcome : Outcome work.Result}
    (h : Ends work m outcome) (hc : ∀ id, (m.catalog.method id).body.IsClear)
    (hw : work.IsClear) : Furnished outcome := by
  induction h with
  | @refused id arguments m m' fault he =>
    rw [enter_apply] at he
    split at he <;> cases he
    simp [Furnished, Fault.LacksOperand]
  | @native id arguments m m' he hn =>
    exact furnished_leave (.of_supplied (Exec.supplied_runNative id) m') id
  | @interpreted id arguments m m' worked he hn hb ih =>
    have hcatalog : m'.catalog = m.catalog := by rw [(enter_eq_ok he).2]; rfl
    rw [hcatalog] at ih
    exact furnished_leave (ih hc (hc id)) id
  | passed => trivial
  | faulted hg hs => exact hw.furnished_step hg hs
  | left => trivial
  | next hg hs hr ih => exact ih ((sameCallers_step hs).catalog ▸ hc) hw
  | jump hg hs ht hr ih => exact ih ((sameCallers_step hs).catalog ▸ hc) hw
  | astray hg hs ht => simp [Furnished, Fault.LacksOperand]
  | calleeFaulted hg hs hcall ih => exact ih ((sameCallers_step hs).catalog ▸ hc) trivial
  | @notResumed _ _ _ _ m₂ _ _ _ _ result created _ hg hs hcall hp ih =>
    exact hp ▸ .of_supplied (Exec.supplied_pushResults result created) m₂
  | @resumed _ _ m m₁ m₂ m' _ _ _ result created _ hg hs hcall hp hr ihc ihr =>
    have hpush := sameCallers_pushResults result created m₂
    rw [hp] at hpush
    have hcatalog : m'.catalog = m.catalog :=
      (((sameCallers_step hs).trans hcall.sameCallers).trans hpush).catalog
    exact ihr (hcatalog ▸ hc) hw

/-- A call is furnished if every loaded body is clear. -/
theorem furnished_call {fuel : Nat} {id : MethodId} {arguments : List Value} {m : Machine}
    {outcome : Outcome (Option Value)} (hc : ∀ id, (m.catalog.method id).body.IsClear)
    (h : m.call fuel id arguments = some outcome) : Furnished outcome :=
  (ends_of_call h).furnished hc trivial

/-- A method that is executed is furnished if every loaded body is clear. -/
theorem furnished_execute {fuel : Nat} {id : MethodId} {m : Machine}
    {outcome : Outcome (Option Value)} (hc : ∀ id, (m.catalog.method id).body.IsClear)
    (h : m.execute fuel id = some outcome) : Furnished outcome := by
  have htake : Exec.Composed [] (Exec.takeArguments id) fun arguments => arguments :=
    Exec.composed_takeArguments id
  have hcatalog := (htake.sameCallers m).catalog
  have hfurnished := Furnished.of_supplied (Exec.supplied_takeArguments id) m
  unfold execute at h
  cases ht : Exec.takeArguments id m with
  | error fault m' =>
    rw [ht] at h hfurnished
    cases h
    exact hfurnished
  | ok arguments m' =>
    rw [ht] at h hcatalog
    obtain ⟨ended, hcall, rfl⟩ := Option.map_eq_some_iff.mp h
    have hended := furnished_call (hcatalog ▸ hc) hcall
    cases ended with
    | error fault m'' => exact hended
    | ok result m'' =>
      dsimp only
      split <;> trivial

/-- A program that is started is furnished if every loaded body is clear. -/
theorem furnished_start {fuel : Nat} {texts : List String} {m : Machine}
    {outcome : Outcome (Option Value)} (hc : ∀ id, (m.catalog.method id).body.IsClear)
    (h : m.start fuel texts = some outcome) : Furnished outcome := by
  unfold start at h
  split at h
  · cases h
    simp [Furnished, Fault.LacksOperand]
  · rename_i id _
    have hcatalog := ((composed_startArguments id texts).sameCallers m).catalog
    have hfurnished := Furnished.of_supplied (Exec.supplied_startArguments id texts) m
    split at h
    · rename_i hp
      rw [hp] at hfurnished
      cases h
      exact hfurnished
    · rename_i hp
      rw [hp] at hcatalog
      exact furnished_call (hcatalog ▸ hc) h

/-- A load fails for what it reads, not for an operand that a step lacks. -/
theorem furnished_load (image : Image) (m : Machine) : Furnished (m.load image) := by
  unfold load loadModule
  split
  · trivial
  · rename_i hl
    cases Load.rejects_addModule image.source _ _ _ hl <;> simp [Furnished, Fault.LacksOperand]

end Machine

/-! ## Actions -/

open Machine

/-- Results that are handed to a host come from a furnished outcome or not at all. -/
theorem Action.furnished_given {α : Type} {outcome : Outcome α} (h : Furnished outcome)
    (values : α → List Value) : Furnished (given values outcome) := by
  cases outcome with
  | ok a m => trivial
  | error fault m => exact h

/-- No action raises the fault on a machine where all instructions say what they ask for. -/
theorem Action.furnished_run {action : Action} {fuel : Nat} {m : Machine}
    {outcome : Outcome (List Value)} (hc : ∀ id, (m.catalog.method id).body.IsClear)
    (h : action.run fuel m = some outcome) : Furnished outcome := by
  cases action with
  | load image =>
    cases h
    exact furnished_given (furnished_load image m) _
  | start texts =>
    obtain ⟨ended, he, rfl⟩ := Option.map_eq_some_iff.mp h
    exact furnished_given (furnished_start hc he) _
  | call id arguments =>
    obtain ⟨ended, he, rfl⟩ := Option.map_eq_some_iff.mp h
    exact furnished_given (furnished_call hc he) _
  | execute id =>
    obtain ⟨ended, he, rfl⟩ := Option.map_eq_some_iff.mp h
    exact furnished_given (furnished_execute hc he) _
  | collectGarbage =>
    cases h
    trivial
  | instantiate type =>
    cases h
    exact furnished_given (.of_supplied (Exec.supplied_instantiate type) m) _
  | allocString text =>
    cases h
    exact furnished_given (.of_supplied (Exec.supplied_allocString text) m) _
  | allocArray elements =>
    cases h
    exact furnished_given (.of_supplied (Exec.supplied_allocArray elements) m) _
  | allocList items =>
    cases h
    exact furnished_given (.of_supplied (Exec.supplied_allocList items) m) _
  | setField handle name value =>
    cases h
    exact furnished_given (.of_supplied (Exec.supplied_setField handle name value) m) _

/-- Operands always match their opcodes. Whatever modules a machine has loaded, every instruction of
every body has an operand of the form that its opcode prescribes and can say what it asks for; and
whatever the host does next, calling a method or starting the program included, no outcome is that
an instruction lacks its operand. -/
theorem operands_match_opcodes {options : Options} {files : Files} {m : Machine}
    (h : Attainable options files m) :
    (∀ id, ∀ inst ∈ (m.catalog.method id).body.instructions,
      inst.opcode.kind.fits inst.operand = true ∧ inst.task ≠ .missingOperand) ∧
    ∀ (action : Action) (fuel : Nat) (fault : Fault) (m' : Machine),
      action.run fuel m = some (.error fault m') →
        ∀ offset opcode, fault ≠ .missingOperand offset opcode := by
  constructor
  · intro id inst hm
    obtain ⟨_, _, _, _, hoperands⟩ := (h.isDecoded id).decomposes
    exact ⟨hoperands inst hm, (h.isDecoded id).isClear inst hm⟩
  · rintro action fuel fault m' hr offset opcode rfl
    have hfurnished := Action.furnished_run (fun id => (h.isDecoded id).isClear) hr
    exact hfurnished trivial

/-- The fault of an outcome that is none else. -/
def Outcome.fault? {α : Type} : Outcome α → Option Fault
  | .ok _ _ => none
  | .error fault _ => some fault

/-- A module with one method, which asks for a token that no member has. -/
def reflective : Image where
  name := "Reflective"
  types := [{
    nameSpace := ""
    name := "Mirror"
    base := none
    fields := []
    constructors := []
    methods := [{
      name := "Reflect"
      signature := "static ()void"
      isAbstract := false
      isVirtual := false
      -- Loads the token and returns.
      code := [0xD0, 0x09, 0x00, 0x00, 0x02, 0x2A] }] }]
  strings := .empty
  members := .empty

/-- A machine on which the module is loaded. -/
def reflectiveLoaded : Machine := Action.advance 0 (Machine.new {} .empty) (.load reflective)

/-- The token is left unresolved, which is a form of its operand, and the instruction that loads it
faults because it is not supported. -/
theorem operands_match_opcodes_unresolved :
    (reflectiveLoaded.catalog.method ⟨32⟩).body.instructions.toList =
      [⟨.ldtoken, 0, some (.unresolved ⟨0x02000009⟩)⟩, ⟨.ret, 5, none⟩] ∧
    Instruction.task ⟨.ldtoken, 0, some (.unresolved ⟨0x02000009⟩)⟩ ≠ .missingOperand ∧
    ∃ fault m', reflectiveLoaded.call 1 ⟨32⟩ [] = some (.error fault m') ∧
      fault = .unsupported 0 .ldtoken ∧ ∀ offset opcode, fault ≠ .missingOperand offset opcode := by
  have hloaded : Reachable {} .empty reflectiveLoaded :=
    Reachable.new.advance 0 (.load reflective) (Machine.holds_nil (.new {} .empty))
  obtain ⟨hoperands, hactions⟩ := operands_match_opcodes hloaded.attainable
  have hinstructions : (reflectiveLoaded.catalog.method ⟨32⟩).body.instructions.toList =
      [⟨.ldtoken, 0, some (.unresolved ⟨0x02000009⟩)⟩, ⟨.ret, 5, none⟩] := by
    decide +kernel
  have hfirst : (⟨.ldtoken, 0, some (.unresolved ⟨0x02000009⟩)⟩ : Instruction) ∈
      (reflectiveLoaded.catalog.method ⟨32⟩).body.instructions := by
    rw [← Array.mem_toList_iff, hinstructions]
    exact List.mem_cons_self
  have hfault : (reflectiveLoaded.call 1 ⟨32⟩ []).bind Outcome.fault? =
      some (.unsupported 0 .ldtoken) := by
    decide +kernel
  obtain ⟨outcome, hcall, hfault⟩ := Option.bind_eq_some_iff.mp hfault
  cases outcome with
  | ok result m' => cases hfault
  | error fault m' =>
    have hrun : (Action.call ⟨32⟩ []).run 1 reflectiveLoaded = some (.error fault m') := by
      simp only [Action.run, hcall, Option.map_some, Action.given]
    exact ⟨hinstructions, (hoperands ⟨32⟩ _ hfirst).2, fault, m', hcall, Option.some.inj hfault,
      hactions _ 1 fault m' hrun⟩

end ManagedCode
