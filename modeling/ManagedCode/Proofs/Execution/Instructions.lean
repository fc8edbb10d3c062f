import ManagedCode.Proofs.Execution.Composition

/-!
# Instructions are composed

Every instruction is composed of the primitives: it stores no reference that it did not find on the
evaluation stack, among the locals and arguments, in a static field or in an object.
-/

namespace ManagedCode

/-- The values that an instruction hands on: the arguments of a call, and the constructed object. -/
def Flow.values : Flow → List Value
  | .call _ arguments created => arguments ++ created.toList
  | _ => []

/-! ## Constants -/

private theorem simpleTask?_constant {op : Opcode} {v : Value}
    (h : op.simpleTask? = some (.constant v)) : v.handle? = none := by
  cases op <;> cases h <;> rfl

private theorem plainTask?_constant {op : Opcode} {v : Value}
    (h : op.plainTask? = some (.constant v)) : v.handle? = none := by
  simp only [Opcode.plainTask?, Option.orElse_eq_orElse, Option.orElse_eq_or,
    Option.or_eq_some_iff, Option.map_eq_some_iff, reduceCtorEq, and_false, exists_false,
    false_or] at h
  exact simpleTask?_constant h.2.2.2

private theorem operandTask_constant {op : Opcode} {operand : Option Operand} {v : Value}
    (h : op.operandTask operand = .constant v) : v.handle? = none := by
  unfold Opcode.operandTask at h
  split at h
  all_goals
    simp only [Task.onVariable, Task.onField, Task.onType, Task.onMethod, Task.onTarget,
      Task.ofConstant, Task.ofString, Task.ofTargets, reduceCtorEq] at h
  all_goals
    split at h <;> cases h <;> rfl

/-- No instruction has a reference as its constant. -/
theorem Instruction.handle?_of_task_eq_constant {inst : Instruction} {v : Value}
    (h : inst.task = .constant v) : v.handle? = none := by
  unfold Instruction.task at h
  dsimp only at h
  split at h
  · rename_i hp
    exact plainTask?_constant (hp.trans (congrArg some h))
  · unfold Task.onTarget at h
    split at h <;> cases h
  · exact operandTask_constant h

namespace Exec

open Machine

/-- What is held may be more than what is needed. -/
theorem Composed.mono {held more : List Value} {α : Type} {x : Exec α} {given : α → List Value}
    (h : Composed held x given) (hb : Backed more held) : Composed more x given := by
  induction h generalizing more with
  | done a ha => exact .done a (hb.trans ha)
  | fault fault hf => exact .fault fault hf
  | query hq => exact .query fun m hn hh => hq m hn (hh.backed hb)
  | @bind _ _ _ _ _ given _ _ _ ihx ihf =>
    refine .bind (ihx hb) fun a => ihf a fun handle hm => ?_
    rw [List.mem_append] at hm ⊢
    exact hm.imp_right (hb handle)
  | weaken _ hf ih => exact .weaken (ih hb) hf
  | pop => exact .pop
  | takeTop count => exact .takeTop count
  | push hv => exact .push (hb.trans hv)
  | insertBeneath depth method hv => exact .insertBeneath depth method (hb.trans hv)
  | modifyTop hf =>
    refine .modifyTop fun frame handle hm => ?_
    have hold := hf frame handle hm
    rw [List.mem_append] at hold ⊢
    exact hold.imp_left (hb handle)
  | store ho => exact .store fun r hr => hb r (ho r hr)
  | modifyObject handle hf =>
    exact .modifyObject handle fun object r hr => (hf object r hr).imp_right (hb r)
  | setStatic type name hv => exact .setStatic type name (hb.trans hv)
  | write text => exact .write text
  | writeFile path text => exact .writeFile path text

/-! ## Arguments, locals and objects -/

variable {held : List Value}

/-- What the catalog, the options and the types of the machine say holds no values. -/
theorem composed_ask {α : Type} (f : Machine → α) :
    Composed held (query fun m => .ok (f m)) noValues :=
  .query fun m _ _ => holds_nil m

/-- An argument comes from the frame. -/
theorem composed_loadArgument (index : Nat) :
    Composed held (loadArgument index) fun v => [v] := by
  refine .query fun m hn _ => ?_
  split
  · simp [GoodAnswer, Fault.IsMissing]
  · rename_i frame ht
    split
    · rename_i value hi
      refine (hn.top ht).backed (.of_subset fun v hv => ?_)
      rw [List.mem_singleton] at hv
      simp [Frame.values, hv, List.mem_of_getElem? hi]
    · simp [GoodAnswer, Fault.IsMissing]

/-- The value of a variable comes from the frame. -/
theorem composed_loadLocal (index : Nat) : Composed held (loadLocal index) fun v => [v] := by
  refine .query fun m hn _ => ?_
  split
  · simp [GoodAnswer, Fault.IsMissing]
  · rename_i frame ht
    split
    · rename_i value hi
      refine (hn.top ht).backed (.of_subset fun v hv => ?_)
      rw [List.mem_singleton] at hv
      simp [Frame.values, hv, Array.mem_of_getElem? hi]
    · simp [GoodAnswer, Fault.IsMissing]

/-- A value that is held may be stored as an argument. -/
theorem composed_storeArgument {v : Value} (index : Nat) (hv : Backed held [v]) :
    Composed held (storeArgument index v) noValues := by
  refine .bind (composed_loadArgument index) fun _ => .modifyTop fun frame handle hm => ?_
  simp only [Frame.values, List.mem_append] at hm ⊢
  rcases hm with hm | hm
  · exact Or.inr (Or.inl hm)
  · rcases List.mem_or_eq_of_mem_set hm with hm | rfl
    · exact Or.inr (Or.inr hm)
    · exact Or.inl (Or.inr (hv handle List.mem_cons_self))

/-- A value that is held may be stored in a variable. -/
theorem composed_storeLocal {v : Value} (index : Nat) (hv : Backed held [v]) :
    Composed held (storeLocal index v) noValues := by
  refine .bind (composed_loadLocal index) fun _ => .modifyTop fun frame handle hm => ?_
  simp only [Frame.values, Array.toList_setIfInBounds, List.mem_append] at hm ⊢
  rcases hm with (hm | hm) | hm
  · exact Or.inr (Or.inl (Or.inl hm))
  · rcases List.mem_or_eq_of_mem_set hm with hm | rfl
    · exact Or.inr (Or.inl (Or.inr hm))
    · exact Or.inl (Or.inr (hv handle List.mem_cons_self))
  · exact Or.inr (Or.inr hm)

/-- A new field refers to nothing. -/
theorem handle?_defaultValue (type : Option TypeRef) :
    (defaultValue type).handle? = none := by
  cases type with
  | none => rfl
  | some type =>
    simp only [defaultValue]
    cases ElementKind.ofType type <;> rfl

private theorem backed_initialSlots (m : Machine) (type : TypeId) :
    Backed [] ((initialSlots m type).flatMap Slot.values) := by
  intro handle hm
  obtain ⟨slot, hs, hv⟩ := List.mem_flatMap.mp hm
  unfold initialSlots at hs
  split at hs
  · simp_all [Slot.values]
  · split at hs
    · simp_all [Slot.values]
    · obtain ⟨field, _, rfl⟩ := List.mem_map.mp hs
      exact Backed.of_number (handle?_defaultValue _) handle hv

/-- The values of a slot that an object is stored with must be held. -/
theorem composed_store {object : Object}
    (h : Backed held (object.slots.flatMap Slot.values)) :
    Composed held (store object) fun handle => [.ref handle] := by
  refine .store fun r hr => ?_
  obtain ⟨slot, hs, hv⟩ := Object.mem_references_iff.mp hr
  exact h r (List.mem_flatMap.mpr ⟨slot, hs, hv⟩)

/-- A new object of a type has slots that refer to nothing. -/
theorem composed_instantiate (type : TypeId) :
    Composed held (instantiate type) fun handle => [.ref handle] := by
  have hslots : Composed held (query fun m => .ok (initialSlots m type))
      fun slots => slots.flatMap Slot.values :=
    .query fun m _ _ => (holds_nil m).backed (backed_initialSlots m type)
  exact .bind hslots fun slots => composed_store (.of_subset (List.subset_append_left _ _))

/-- A string refers to nothing. -/
theorem composed_allocString (text : String) : Composed held (allocString text) fun v => [v] := by
  refine .bind (composed_ask _) fun type => ?_
  refine .bind (composed_store fun handle hm => ?_) fun handle => .done _ (.of_subset (by simp))
  simp [Slot.values] at hm

/-- An array may be made of values that are held. -/
theorem composed_allocArray {elements : Elements} (h : Backed held elements.values.toList) :
    Composed held (allocArray elements) fun v => [v] := by
  refine .bind (.query fun m _ _ => goodAnswer_checkArrayLength _) fun length => ?_
  refine .bind (composed_ask _) fun type => ?_
  refine .bind (composed_store fun handle hm => ?_) fun handle => .done _ (.of_subset (by simp))
  have helements : Value.ref handle ∈ elements.values.toList := by simpa [Slot.values] using hm
  exact List.mem_append_right _ (List.mem_append_right _ (h handle helements))

/-- A list may be made of values that are held. -/
theorem composed_allocList {items : Array Value} (h : Backed held items.toList) :
    Composed held (allocList items) fun v => [v] := by
  refine .bind (composed_ask _) fun type => ?_
  refine .bind (composed_store fun handle hm => ?_) fun handle => .done _ (.of_subset (by simp))
  have hitems : Value.ref handle ∈ items.toList := by simpa [Slot.values] using hm
  exact List.mem_append_right _ (h handle hitems)

/-- The items of a list may be replaced by values that are held. -/
theorem composed_setItems {items : Array Value} (handle : Handle)
    (h : Backed held items.toList) : Composed held (setItems handle items) noValues :=
  .modifyObject handle fun _ r hr => (Object.mem_references_setSlot hr).imp_right (h r)

private theorem mem_put {elements : Elements} {position : Nat} {stored v : Value}
    (h : v ∈ (elements.put position stored).values.toList) :
    v ∈ elements.values.toList ∨ v = stored := by
  rw [Elements.put, Array.toList_setIfInBounds] at h
  exact List.mem_or_eq_of_mem_set h

/-- A value that is held may be stored in an array that is held. -/
theorem composed_setElement {handle : Handle} {v : Value} (index : Int)
    (hh : Value.ref handle ∈ held) (hv : Backed held [v]) :
    Composed held (setElement handle index v) noValues := by
  have hplan : Composed held
      (query fun m => do (← m.arrayOf handle).plan index v) fun planned => [planned.2] := by
    refine .query fun m hn hm => ?_
    refine (hn.goodAnswer_arrayOf (hm handle hh)).bind fun elements _ => ?_
    exact goodAnswer_plan elements index (hm.backed hv)
  refine .bind hplan fun ⟨position, stored⟩ => .modifyObject handle fun object r hr => ?_
  refine Object.mem_references_modifySlot (fun slot hs => ?_) hr
  cases slot with
  | array elements =>
    rcases mem_put hs with hs | rfl
    · exact Or.inl hs
    · exact Or.inr (List.mem_append_left _ List.mem_cons_self)
  | value v => exact Or.inl hs
  | text s => exact Or.inl hs
  | list items => exact Or.inl hs

/-- A value that is held may be stored in a field of an object that is held. -/
theorem composed_setField {handle : Handle} {v : Value} (name : String)
    (hh : Value.ref handle ∈ held) (hv : Backed held [v]) :
    Composed held (setField handle name v) noValues := by
  have hfield : Composed held (query (·.fieldOf handle name)) fun found => [found.2] :=
    .query fun m hn hm => hn.goodAnswer_fieldOf (hm handle hh) name
  refine .bind hfield fun ⟨slot, _⟩ => .modifyObject handle fun object r hr => ?_
  refine (Object.mem_references_setSlot hr).imp_right fun hr => ?_
  exact List.mem_append_right _ (hv r hr)

private theorem mem_values_of_get? {statics : Statics} {type : TypeId} {name : String} {v : Value}
    (h : statics.get? type name = some v) : v ∈ statics.values := by
  obtain ⟨before, after, he, _⟩ := List.lookup_eq_some_iff.mp h
  rw [Statics.values, he]
  simp

private theorem backed_zeros (kind : ElementKind) (length : Nat) :
    Backed held (Elements.zeros kind length).values.toList := by
  intro handle hm
  rw [Elements.zeros, Array.toList_replicate, List.mem_replicate] at hm
  cases kind <;> cases hm.2

/-! ## Pieces of instructions -/

/-- Two operands that were popped are held. -/
theorem composed_popTwo : Composed held popTwo fun popped => [popped.1, popped.2] :=
  .bind .pop fun _ => .bind .pop fun _ => .done _ (.of_subset (by simp))

/-- A reference that was popped is held. -/
theorem composed_popHandle : Composed held popHandle fun handle => [.ref handle] :=
  .bind .pop fun v => .query fun _ _ hm =>
    (goodAnswer_toHandle v).mpr (hm.backed (.of_subset (by simp)))

/-- An index that was popped is a number. -/
theorem composed_popIndex : Composed held popIndex noValues :=
  .bind .pop fun v => .bind (.query fun _ _ _ => goodAnswer_toIndex v) fun _ =>
    .done _ (.of_subset (by simp [noValues]))

/-- Resolving a method is asking the catalog. -/
theorem composed_resolveMethod (ref : MethodRef) : Composed held (resolveMethod ref) noValues :=
  .query fun _ _ _ => goodAnswer_resolved _

/-- Resolving a type is asking the catalog. -/
theorem composed_resolveType (ref : TypeRef) : Composed held (resolveType ref) noValues :=
  .query fun _ _ _ => goodAnswer_resolved _

/-- What a cast gives is the value that it was given, or null. -/
theorem composed_cast (target : TypeRef) (orNull : Bool) {v : Value} (hv : Backed held [v]) :
    Composed held (cast target orNull v) fun v => [v] := by
  refine .query fun m hn hm => ?_
  have hvalue := hm.backed hv
  cases v with
  | ref handle =>
    refine (hn.goodAnswer_object (holds_ref.mp hvalue)).bind fun object _ => ?_
    refine (goodAnswer_resolved _).bind fun type _ => ?_
    split
    · exact hvalue
    · split
      · exact (holds_nil m).backed (Backed.of_number rfl)
      · simp [throw, throwThe, MonadExceptOf.throw, GoodAnswer, Fault.IsMissing]
  | null => exact hvalue
  | int32 _ => exact hvalue
  | int64 _ => exact hvalue
  | float64 _ => exact hvalue

/-- A test pops its operands and looks at them. -/
theorem composed_branches (test : BranchTest) : Composed held (branches test) noValues := by
  cases test with
  | isFalse => exact .bind .pop fun _ => .done _ (.of_subset (by simp [noValues]))
  | isTrue => exact .bind .pop fun _ => .done _ (.of_subset (by simp [noValues]))
  | compares op =>
    exact .bind composed_popTwo fun popped =>
      .query fun _ _ _ => goodAnswer_compare op popped.1 popped.2

/-- The target of a virtual call is found by asking the machine. -/
theorem composed_virtualTarget (id : MethodId) : Composed held (virtualTarget id) noValues := by
  refine .query fun m hn _ => ?_
  dsimp only
  split
  · exact holds_nil m
  · split
    · rename_i handle hp
      obtain ⟨frame, ht, hpeek⟩ := Option.bind_eq_some_iff.mp hp
      have hlive : m.heap.Live handle := by
        refine hn.top ht handle ?_
        simp [Frame.values, List.mem_of_getElem? hpeek]
      exact (hn.goodAnswer_object hlive).bind fun object _ => holds_nil m
    · exact holds_nil m

/-- Arguments that were taken from the stack are held. -/
theorem composed_takeArguments (id : MethodId) :
    Composed held (takeArguments id) fun arguments => arguments := by
  refine .bind (composed_ask _) fun method => .bind (.takeTop _) fun taken => ?_
  refine .query fun m _ hm => ?_
  have htaken : m.Holds taken := hm.backed (.of_subset (List.subset_append_left _ _))
  split
  · exact htaken.backed (.of_subset (by simp))
  · exact htaken.backed (backed_orderArguments m _ taken)

/-! ## Instructions -/

/-- A value that is pushed right after it was asked for. -/
theorem composed_push_of {x : Exec Value} (h : Composed held x fun v => [v]) :
    Composed held (x >>= push) noValues :=
  .bind h fun _ => .push (.of_subset (by simp))

/-- A task that goes on with the next instruction is composed if what it pushes as a constant is no
reference. -/
theorem composed_perform {task : Task} (hc : ∀ v, task = .constant v → v.handle? = none) :
    Composed held (perform task) noValues := by
  cases task with
  | constant v => exact .push (Backed.of_number (hc v rfl))
  | loadArgument index => exact composed_push_of (composed_loadArgument index)
  | storeArgument index =>
    exact .bind .pop fun _ => composed_storeArgument index (.of_subset (by simp))
  | loadLocal index => exact composed_push_of (composed_loadLocal index)
  | storeLocal index => exact .bind .pop fun _ => composed_storeLocal index (.of_subset (by simp))
  | duplicate =>
    refine .bind .pop fun _ => .bind (.push (.of_subset (by simp))) fun _ => ?_
    exact .push (.of_subset (by simp))
  | discard => exact .bind .pop fun _ => .done _ (.of_subset (by simp [noValues]))
  | negate =>
    exact .bind .pop fun v => composed_push_of (.query fun _ _ _ => (computed_negate v).goodAnswer)
  | complement =>
    exact .bind .pop fun v =>
      composed_push_of (.query fun _ _ _ => (computed_complement v).goodAnswer)
  | binary op =>
    exact .bind composed_popTwo fun popped =>
      composed_push_of (.query fun _ _ _ => (computed_binary op popped.1 popped.2).goodAnswer)
  | compare op =>
    refine .bind composed_popTwo fun popped => ?_
    refine .bind (.query fun _ _ _ => goodAnswer_compare op popped.1 popped.2) fun truth => ?_
    exact .push (Backed.of_number rfl)
  | convert conversion =>
    exact .bind .pop fun v =>
      composed_push_of (.query fun _ _ _ => (computed_convert conversion v).goodAnswer)
  | loadString text => exact composed_push_of (composed_allocString text)
  | loadField field =>
    refine .bind composed_popHandle fun handle => ?_
    have hfield : Composed ([Value.ref handle] ++ held) (query (·.fieldOf handle field.name))
        fun found => [found.2] :=
      .query fun m hn hm => hn.goodAnswer_fieldOf (hm handle (by simp)) field.name
    exact .bind hfield fun _ => .push (.of_subset (by simp))
  | storeField field =>
    refine .bind .pop fun v => .bind composed_popHandle fun handle => ?_
    exact composed_setField field.name (by simp) (.of_subset (by simp))
  | loadStatic field =>
    refine .bind (composed_resolveType _) fun type => composed_push_of (.query fun m hn _ => ?_)
    intro handle hm
    cases hs : m.statics.get? type field.name with
    | none =>
      rw [hs, Option.getD_none] at hm
      exact absurd (Backed.of_number (handle?_defaultValue _) handle hm) List.not_mem_nil
    | some v =>
      rw [hs, Option.getD_some, List.mem_singleton] at hm
      subst hm
      exact hn.statics handle (mem_values_of_get? hs)
  | storeStatic field =>
    refine .bind (composed_resolveType _) fun type => .bind .pop fun v => ?_
    exact .setStatic type field.name (.of_subset (by simp))
  | newArray element =>
    refine .bind composed_popIndex fun length => ?_
    refine .bind (.query fun _ _ _ => goodAnswer_checkArrayLength length) fun length => ?_
    exact composed_push_of (composed_allocArray (backed_zeros _ length))
  | arrayLength =>
    refine .bind composed_popHandle fun handle => ?_
    refine .bind (.query fun m hn hm => hn.goodAnswer_arrayOf (hm handle (by simp))) fun _ => ?_
    exact .push (Backed.of_number rfl)
  | loadElement =>
    refine .bind composed_popIndex fun index => .bind composed_popHandle fun handle => ?_
    refine composed_push_of (.query fun m hn hm => ?_)
    refine (hn.goodAnswer_arrayOf (hm handle (by simp))).bind fun elements he => ?_
    exact goodAnswer_getElement he index
  | storeElement =>
    refine .bind .pop fun v => .bind composed_popIndex fun index => ?_
    refine .bind composed_popHandle fun handle => ?_
    exact composed_setElement index (by simp) (.of_subset (by simp))
  | cast target orNull =>
    exact .bind .pop fun v =>
      composed_push_of (composed_cast target orNull (.of_subset (by simp)))
  | _ => exact .done _ (.of_subset (by simp [noValues]))

/-- An object that is constructed is made, then passed to its constructor. -/
theorem composed_construct (ref : MethodRef) : Composed held (construct ref) Flow.values := by
  refine .bind (composed_resolveMethod ref) fun id => .bind (composed_ask _) fun method => ?_
  refine .bind (composed_instantiate _) fun handle => ?_
  refine .bind (.insertBeneath _ _ (.of_subset (by simp))) fun _ => ?_
  refine .bind (composed_takeArguments id) fun arguments => .done _ ?_
  exact .of_subset (by simp [Flow.values])

/-- Taking the arguments of a method and handing them on. -/
private theorem composed_handOn (id : MethodId) :
    Composed held (do return Flow.call id (← takeArguments id) none) Flow.values :=
  .bind (composed_takeArguments id) fun _ => .done _ (.of_subset (by simp [Flow.values]))

private theorem composed_goOn {flow : Flow} (h : flow.values = []) :
    Composed held (pure flow) Flow.values :=
  .done _ (.of_subset (by simp [h]))

/-- Every instruction is composed, and hands on only what it took or made. -/
theorem composed_step (inst : Instruction) : Composed held (step inst) Flow.values := by
  have hperform : Composed held (perform inst.task) noValues :=
    composed_perform fun _ => Instruction.handle?_of_task_eq_constant
  unfold step
  cases htask : inst.task with
  | jump target => exact composed_goOn rfl
  | branch test target =>
    refine .bind (composed_branches test) fun taken => composed_goOn ?_
    cases taken <;> rfl
  | switch targets =>
    refine .bind .pop fun v => .bind (.query fun _ _ _ => goodAnswer_toInt32 v) fun index => ?_
    split
    · exact composed_goOn rfl
    · apply composed_goOn
      cases targets[index.toInt.toNat]? <;> rfl
  | call ref => exact .bind (composed_resolveMethod ref) fun id => composed_handOn id
  | callVirtual ref =>
    refine .bind (composed_resolveMethod ref) fun id => ?_
    exact .bind (composed_virtualTarget id) fun target => composed_handOn target
  | construct ref => exact composed_construct ref
  | leave => exact composed_goOn rfl
  | unsupported => exact .fault _ (by simp [Fault.IsMissing])
  | missingOperand => exact .fault _ (by simp [Fault.IsMissing])
  | _ => exact .bind (htask ▸ hperform) fun _ => composed_goOn rfl

end Exec

end ManagedCode
