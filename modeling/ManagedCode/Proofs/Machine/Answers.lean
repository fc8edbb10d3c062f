import ManagedCode.Execution.Step
import ManagedCode.Library.Native
import ManagedCode.Proofs.Machine.References
import Mathlib.Logic.Basic

/-!
# Answers on a machine without dangling references

Every question that an instruction or a native behaviour asks gets a good answer: the values in it
are live references or no references at all, and where there is no answer the fault is not that a
handle is stale. Computed numbers are no references.
-/

namespace ManagedCode

/-- The values of an answer that holds none. -/
def noValues {α : Type} (_ : α) : List Value := []

namespace Machine

variable {m : Machine}

/-- Questions in sequence have good answers if each has, given good values before it. -/
theorem GoodAnswer.bind {α β : Type} {given : α → List Value} {more : β → List Value}
    {x : Except Fault α} {f : α → Except Fault β} (hx : m.GoodAnswer given x)
    (hf : ∀ a, m.Holds (given a) → m.GoodAnswer more (f a)) : m.GoodAnswer more (x >>= f) := by
  cases x with
  | ok a => exact hf a hx
  | error fault => exact hx

/-! ## Computed values -/

/-- A result that is no reference, or a fault that names no handle. -/
def Computed : Except Fault Value → Prop
  | .ok v => v.handle? = none
  | .error fault => fault.handle? = none

/-- A number that was computed refers to nothing, so it is good. -/
theorem Computed.goodAnswer {x : Except Fault Value} (h : Computed x) :
    m.GoodAnswer (fun v => [v]) x := by
  cases x with
  | error fault => exact Fault.not_isMissing_of_handle? h
  | ok v =>
    intro handle hm
    rw [List.mem_singleton] at hm
    subst hm
    exact absurd h (by simp [Computed, Value.handle?])

private theorem onWords_error {w : Nat} {op : BinaryOp} {a b : BitVec w} {fault : Fault}
    (h : op.onWords a b = .error fault) : fault.handle? = none := by
  have hcase : fault = .divisionByZero ∨ ∃ name, fault = .overflow name := by
    cases op <;> simp only [BinaryOp.onWords, BinaryOp.divided, BinaryOp.dividedUn,
      BinaryOp.checked, reduceCtorEq] at h
    all_goals
      repeat' split at h
      all_goals cases h
      all_goals simp
  rcases hcase with rfl | ⟨name, rfl⟩ <;> rfl

private theorem computed_onInt32 (op : BinaryOp) (a b : Int32) : Computed (op.onInt32 a b) := by
  unfold BinaryOp.onInt32
  cases h : op.onWords a.toBitVec b.toBitVec with
  | ok v => rfl
  | error fault => exact onWords_error h

private theorem computed_onInt64 (op : BinaryOp) (a b : Int64) : Computed (op.onInt64 a b) := by
  unfold BinaryOp.onInt64
  cases h : op.onWords a.toBitVec b.toBitVec with
  | ok v => rfl
  | error fault => exact onWords_error h

private theorem computed_onFloats (op : BinaryOp) (a b : Float) : Computed (op.onFloats a b) := by
  cases op <;> simp [BinaryOp.onFloats, Computed, Value.handle?, Fault.handle?]

/-- Arithmetic never makes a reference. -/
theorem computed_binary (op : BinaryOp) (a b : Value) : Computed (Value.binary op a b) := by
  cases a <;> cases b <;> simp only [Value.binary]
  all_goals try split
  all_goals first
    | exact computed_onInt32 ..
    | exact computed_onInt64 ..
    | exact computed_onFloats ..
    | simp [Computed, Value.operandMismatch, Fault.handle?]

private theorem computed_onInt (c : Conversion) (n : Int) : Computed (c.onInt n) := by
  unfold Conversion.onInt
  split
  · simp [Computed, Fault.handle?]
  · cases c with
    | mk target => cases target <;> rfl

/-- A conversion never makes a reference. -/
theorem computed_convert (c : Conversion) (v : Value) : Computed (Value.convert c v) := by
  cases v <;> simp only [Value.convert]
  all_goals repeat' split
  all_goals first
    | exact computed_onInt ..
    | rfl

/-- A negation is computed from the number alone. -/
theorem computed_negate (v : Value) : Computed v.negate := by
  cases v <;> simp [Value.negate, Computed, Value.handle?, Value.mismatch, Fault.handle?]

/-- A complement is computed from the number alone. -/
theorem computed_complement (v : Value) : Computed v.complement := by
  cases v <;> simp [Value.complement, Computed, Value.handle?, Value.mismatch, Fault.handle?]

/-- Comparing values needs no object. -/
theorem goodAnswer_compare (op : CompareOp) (a b : Value) :
    m.GoodAnswer noValues (Value.compare op a b) := by
  have hok : ∀ holds : Bool, m.GoodAnswer noValues (.ok holds) := fun _ => holds_nil m
  have hmismatch : ∀ expected found,
      m.GoodAnswer noValues (.error (.typeMismatch expected found) : Except Fault Bool) := by
    simp [GoodAnswer, Fault.IsMissing]
  cases a with
  | int32 a | int64 a | float64 a =>
    cases b with
    | ref b | null => exact hmismatch _ _
    | _ => exact hok _
  | ref a =>
    cases b with
    | ref b => cases op <;> exact hok _
    | null => exact hok _
    | _ => exact hmismatch _ _
  | null =>
    cases b with
    | ref b | null => exact hok _
    | _ => exact hmismatch _ _

/-- The reference that a value is, is live if the value is good. -/
theorem goodAnswer_toHandle (v : Value) :
    m.GoodAnswer (fun handle => [.ref handle]) v.toHandle ↔ m.Holds [v] := by
  cases v <;> simp [Value.toHandle, GoodAnswer, Value.mismatch, Fault.IsMissing, Holds]

/-- An index refers to nothing. -/
theorem goodAnswer_toIndex (v : Value) : m.GoodAnswer noValues v.toIndex := by
  cases v <;> simp [Value.toIndex, GoodAnswer, Value.mismatch, Fault.IsMissing, noValues, Holds]

/-- A 32-bit integer refers to nothing. -/
theorem goodAnswer_toInt32 (v : Value) : m.GoodAnswer noValues v.toInt32 := by
  cases v <;> simp [Value.toInt32, GoodAnswer, Value.mismatch, Fault.IsMissing, noValues, Holds]

/-! ## Questions about objects -/

/-- A live handle gives its object, whose slots hold good values. -/
theorem NoDangling.goodAnswer_object (hn : m.NoDangling) {handle : Handle}
    (hl : m.heap.Live handle) :
    m.GoodAnswer (fun object => object.slots.flatMap Slot.values) (m.object handle) := by
  obtain ⟨object, ho, hg⟩ := object_of_live hl
  rw [ho]
  intro r hr
  obtain ⟨slot, hs, hv⟩ := List.mem_flatMap.mp hr
  exact hn.objects handle object hg r (Object.mem_references_iff.mpr ⟨slot, hs, hv⟩)

private theorem backed_slot {object : Object} {i : Nat} {slot : Slot}
    (hs : object.slot? i = some slot) : Backed (object.slots.flatMap Slot.values) slot.values :=
  Backed.of_subset fun _ hv => List.mem_flatMap.mpr ⟨slot, List.mem_of_getElem? hs, hv⟩

private theorem backed_elements {object : Object} {elements : Elements}
    (he : object.elements? = some elements) :
    Backed (object.slots.flatMap Slot.values) elements.values.toList := by
  unfold Object.elements? at he
  split at he
  · rename_i found hs
    cases he
    exact backed_slot hs
  · cases he

private theorem backed_items {object : Object} {items : Array Value}
    (hi : object.items? = some items) : Backed (object.slots.flatMap Slot.values) items.toList := by
  unfold Object.items? at hi
  split at hi
  · rename_i found hs
    cases hi
    exact backed_slot hs
  · cases hi

private theorem goodAnswer_slotKind {α : Type} {given : α → List Value} {handle : Handle}
    {field expected : String} :
    m.GoodAnswer given (.error (.heap (.slotKind handle field expected))) := by
  simp [GoodAnswer, Fault.IsMissing]

/-- Asking for the text of a good value names no stale handle. -/
theorem NoDangling.goodAnswer_textOf (hn : m.NoDangling) {value : Value} (hv : m.Holds [value]) :
    m.GoodAnswer noValues (m.textOf value) := by
  cases value with
  | null => exact holds_nil m
  | ref handle =>
    refine (hn.goodAnswer_object (holds_ref.mp hv)).bind fun object _ => ?_
    cases object.text? with
    | some text => exact holds_nil m
    | none => exact goodAnswer_slotKind
  | int32 _ => simp [textOf, GoodAnswer, Value.mismatch, Fault.IsMissing]
  | int64 _ => simp [textOf, GoodAnswer, Value.mismatch, Fault.IsMissing]
  | float64 _ => simp [textOf, GoodAnswer, Value.mismatch, Fault.IsMissing]

/-- Asking for the shown form of a good value names no stale handle. -/
theorem NoDangling.goodAnswer_display (hn : m.NoDangling) {value : Value} (hv : m.Holds [value]) :
    m.GoodAnswer noValues (m.display value) := by
  cases value with
  | ref handle =>
    refine (hn.goodAnswer_object (holds_ref.mp hv)).bind fun object _ => ?_
    cases object.text? <;> exact holds_nil m
  | null => exact holds_nil m
  | int32 _ => exact holds_nil m
  | int64 _ => exact holds_nil m
  | float64 _ => exact holds_nil m

/-- The elements of a good value are good. -/
theorem NoDangling.goodAnswer_elements (hn : m.NoDangling) {value : Value} (hv : m.Holds [value]) :
    m.GoodAnswer id (m.elements value) := by
  refine ((goodAnswer_toHandle value).mpr hv).bind fun handle hl => ?_
  refine (hn.goodAnswer_object (holds_ref.mp hl)).bind fun object ho => ?_
  cases hs : object.slot? 0 with
  | none => exact goodAnswer_slotKind
  | some slot =>
    have hvalues := ho.backed (backed_slot hs)
    cases slot with
    | array elements => exact hvalues
    | list items => exact hvalues
    | value v => exact goodAnswer_slotKind
    | text s => exact goodAnswer_slotKind

/-- The elements of a live array are good. -/
theorem NoDangling.goodAnswer_arrayOf (hn : m.NoDangling) {handle : Handle}
    (hl : m.heap.Live handle) :
    m.GoodAnswer (fun elements => elements.values.toList) (m.arrayOf handle) := by
  refine (hn.goodAnswer_object hl).bind fun object ho => ?_
  cases he : object.elements? with
  | none => exact goodAnswer_slotKind
  | some elements => exact ho.backed (backed_elements he)

/-- The items of a live list are good. -/
theorem NoDangling.goodAnswer_listOf (hn : m.NoDangling) {handle : Handle}
    (hl : m.heap.Live handle) :
    m.GoodAnswer (fun items => items.toList) (m.listOf handle) := by
  refine (hn.goodAnswer_object hl).bind fun object ho => ?_
  cases hi : object.items? with
  | none => exact goodAnswer_slotKind
  | some items => exact ho.backed (backed_items hi)

/-- The value of a field of a live object is good. -/
theorem NoDangling.goodAnswer_fieldOf (hn : m.NoDangling) {handle : Handle}
    (hl : m.heap.Live handle) (name : String) :
    m.GoodAnswer (fun found => [found.2]) (m.fieldOf handle name) := by
  refine (hn.goodAnswer_object hl).bind fun object ho => ?_
  have hslot : m.GoodAnswer noValues
      ((m.catalog.fieldSlot object.type name).mapError Fault.heap) := by
    unfold Catalog.fieldSlot
    split
    · exact holds_nil m
    · change ¬ (Fault.heap _).IsMissing
      simp [Fault.IsMissing]
  refine hslot.bind fun i _ => ?_
  cases hs : object.slot? i with
  | none => exact goodAnswer_slotKind
  | some slot =>
    cases slot with
    | value v => exact ho.backed (backed_slot hs)
    | text s => exact goodAnswer_slotKind
    | array elements => exact goodAnswer_slotKind
    | list items => exact goodAnswer_slotKind

/-- Comparing good values names no stale handle. -/
theorem NoDangling.goodAnswer_valuesEqual (hn : m.NoDangling) {a b : Value} (ha : m.Holds [a])
    (hb : m.Holds [b]) : m.GoodAnswer noValues (m.valuesEqual a b) := by
  unfold valuesEqual
  split
  · refine (hn.goodAnswer_object (holds_ref.mp ha)).bind fun x _ => ?_
    refine (hn.goodAnswer_object (holds_ref.mp hb)).bind fun y _ => ?_
    split <;> exact holds_nil m
  · exact holds_nil m

/-- A search among good values names no stale handle. -/
theorem NoDangling.goodAnswer_findValue (hn : m.NoDangling) {wanted : Value}
    (hw : m.Holds [wanted]) {values : List Value} (hv : m.Holds values) (start : Nat) :
    m.GoodAnswer noValues (Native.findValue m wanted start values) := by
  induction values generalizing start with
  | nil => exact holds_nil m
  | cons value values ih =>
    have hvalue : m.Holds [value] := hv.backed (Backed.of_subset (by simp))
    have hrest : m.Holds values := hv.backed (Backed.of_subset (by simp))
    refine (hn.goodAnswer_valuesEqual hvalue hw).bind fun equal _ => ?_
    cases equal
    · exact ih hrest (start + 1)
    · exact holds_nil m

/-! ## Questions about elements, arguments and names -/

/-- The position of an index refers to nothing. -/
theorem goodAnswer_position (elements : Elements) (index : Int) :
    m.GoodAnswer noValues (elements.position index) := by
  unfold Elements.position
  split
  · exact holds_nil m
  · simp [GoodAnswer, Fault.IsMissing]

/-- An element is one of the values that are good. -/
theorem goodAnswer_getElement {elements : Elements} (he : m.Holds elements.values.toList)
    (index : Int) : m.GoodAnswer (fun v => [v]) (elements.get index) := by
  refine (goodAnswer_position elements index).bind fun position _ => ?_
  intro handle hm
  apply he
  rw [List.mem_singleton, Array.getD_eq_getD_getElem?] at hm
  cases hp : elements.values[position]? with
  | none => simp [hp] at hm
  | some v =>
    have hmem := Array.mem_of_getElem? hp
    rw [hp, Option.getD_some] at hm
    exact Array.mem_def.mp (hm ▸ hmem)

/-- The form in which a value is stored is the value itself or a number. -/
theorem backed_coerce {kind : ElementKind} {value stored : Value}
    (h : kind.coerce? value = some stored) : Backed [value] [stored] := by
  intro handle hm
  rw [List.mem_singleton] at hm
  subst hm
  cases kind <;> cases value <;> simp_all [ElementKind.coerce?]

/-- The value that is to be stored is the good one or a number made of it. -/
theorem goodAnswer_plan (elements : Elements) (index : Int) {value : Value}
    (hv : m.Holds [value]) :
    m.GoodAnswer (fun planned => [planned.2]) (elements.plan index value) := by
  refine (goodAnswer_position elements index).bind fun position _ => ?_
  cases hs : elements.kind.coerce? value with
  | some stored => exact hv.backed (backed_coerce hs)
  | none => simp [throw, throwThe, MonadExceptOf.throw, GoodAnswer, Value.mismatch, Fault.IsMissing]

/-- A length refers to nothing. -/
theorem goodAnswer_checkArrayLength (length : Int) :
    m.GoodAnswer noValues (m.checkArrayLength length) := by
  unfold checkArrayLength
  split
  · simp [GoodAnswer, Fault.IsMissing]
  · split
    · exact holds_nil m
    · simp [GoodAnswer, Fault.IsMissing]

/-- The arguments of the running method are good. -/
theorem NoDangling.goodAnswer_arguments (hn : m.NoDangling) : m.GoodAnswer id m.arguments := by
  unfold arguments
  cases ht : m.calls.top? with
  | none => simp [GoodAnswer, Fault.IsMissing]
  | some frame =>
    exact (hn.top ht).backed (Backed.of_subset (List.subset_append_right _ _))

/-- Each argument of the running method is good. -/
theorem NoDangling.goodAnswer_argument (hn : m.NoDangling) (index : Nat) :
    m.GoodAnswer (fun v => [v]) (m.argument index) := by
  refine hn.goodAnswer_arguments.bind fun arguments ha => ?_
  cases hi : arguments[index]? with
  | none => simp [throw, throwThe, MonadExceptOf.throw, GoodAnswer, Fault.IsMissing]
  | some value =>
    exact ha.backed (Backed.of_subset (by simpa using List.mem_of_getElem? hi))

/-- Errors that are turned into faults other than a missing object make good answers. -/
theorem goodAnswer_mapError {ε α : Type} {f : ε → Fault} (hf : ∀ e, ¬ (f e).IsMissing)
    (x : Except ε α) : m.GoodAnswer noValues (x.mapError f) := by
  cases x with
  | ok a => exact holds_nil m
  | error e => exact hf e

/-- Looking a name up in the catalog has nothing to do with handles. -/
theorem goodAnswer_resolved {α : Type} (x : Except ResolveError α) :
    m.GoodAnswer noValues (x.mapError Fault.resolve) :=
  goodAnswer_mapError (fun e => by simp [Fault.IsMissing]) x

/-- Checking a position in a list has nothing to do with handles. -/
theorem goodAnswer_position_list (index : Int64) (limit length : Nat) :
    m.GoodAnswer noValues (Native.position index limit length) := by
  unfold Native.position
  split
  · exact holds_nil m
  · simp [GoodAnswer, Fault.IsMissing]

/-- Putting arguments in order leaves the same values. -/
theorem backed_orderArguments (m : Machine) (declaring : TypeId) (arguments : List Value) :
    Backed arguments (m.orderArguments declaring arguments) := by
  have hcase : m.orderArguments declaring arguments = arguments ∨
      m.orderArguments declaring arguments = arguments.reverse := ite_eq_or_eq _ _ _
  rcases hcase with h | h <;> rw [h] <;> exact Backed.of_subset (by simp)

end Machine

end ManagedCode
