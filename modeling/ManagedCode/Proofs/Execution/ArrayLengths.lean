import ManagedCode.Proofs.Execution.FieldStorage
import ManagedCode.Proofs.Execution.Sites

/-!
# The two lengths of an array

An array has its length twice: as the number of its elements, which `ldlen` reads and nothing
changes, and in a field, which `ldfld` reads like any other one. The two are the same when the array
is made, and nothing that a program or its host does separates them but the storing of the field
itself. A history therefore keeps the handles of the objects that have had a field stored.
-/

namespace ManagedCode

/-! ## Arrays whose field is right -/

/-- If the object is an array, its field has the number of its elements. -/
def Object.Counted (object : Object) : Prop :=
  ∀ elements length, object.slots = [.array elements, .value length] →
    length = .int32 (Int32.ofNat elements.size)

namespace Object

variable {object : Object}

/-- An object that starts with anything but elements is no array. -/
theorem counted_of_slot_zero (h : ∀ elements, object.slot? 0 ≠ some (.array elements)) :
    object.Counted := by
  intro elements length hslots
  exact absurd (by simp [slot?, hslots]) (h elements)

/-- The elements may be replaced by as many others. -/
theorem Counted.modifySlot (h : object.Counted) {f : Slot → Slot}
    (hf : ∀ slot elements, f slot = .array elements →
      ∃ before, slot = .array before ∧ before.size = elements.size) :
    (object.modifySlot 0 f).Counted := by
  intro elements length hslots
  rw [Object.modifySlot] at hslots
  cases hold : object.slots with
  | nil =>
    rw [hold] at hslots
    cases hslots
  | cons first rest =>
    rw [hold] at hslots
    obtain ⟨hfirst, hrest⟩ := List.cons.inj hslots
    obtain ⟨before, rfl, hsize⟩ := hf _ _ hfirst
    rw [← hsize]
    exact h before length (by rw [hold, hrest])

end Object

/-- Everything found after an object was stored is that object or was there before. -/
theorem Heap.get?_of_get?_add {heap : Heap} {stored object : Object} {handle : Handle}
    (h : (heap.add stored).2.get? handle = some object) :
    object = stored ∨ heap.get? handle = some object := by
  rw [get?_eq_some_iff] at h ⊢
  unfold add at h
  split at h
  · simp only [Array.getElem?_modify] at h
    split at h
    · obtain ⟨entry, -, hentry⟩ := Option.map_eq_some_iff.mp h
      exact .inl (Option.some.inj (Entry.mk.inj hentry).2).symm
    · exact .inr h
  · simp only [Array.getElem?_push] at h
    split at h
    · exact .inl (Option.some.inj (Entry.mk.inj (Option.some.inj h)).2).symm
    · exact .inr h

/-- A new object that is not made of elements is no array. -/
theorem counted_initial (m : Machine) (type : TypeId) :
    Object.Counted ⟨type, Exec.initialSlots m type⟩ := by
  refine Object.counted_of_slot_zero fun elements => ?_
  unfold Exec.initialSlots Object.slot?
  split
  · simp
  · split
    · simp
    · simp [List.getElem?_map]

namespace Machine

/-- An object that a program makes is no array, or it is counted when it is made. -/
theorem Makes.counted {m : Machine} {object : Object} (h : m.Makes object) : object.Counted := by
  cases h with
  | string text => exact Object.counted_of_slot_zero (by simp [Object.slot?])
  | array elements hlimit =>
    intro others length hslots
    cases hslots
    rfl
  | list items => exact Object.counted_of_slot_zero (by simp [Object.slot?])
  | constructed id => exact counted_initial m _

/-- What the handle names has the number of its elements in its field if it is an array. -/
def Counts (handle : Handle) (m : Machine) : Prop :=
  ∀ object, m.heap.get? handle = some object → object.Counted

section Counting

variable {m : Machine} {handle : Handle}

/-- The length of an array stays right when another object is added. -/
theorem Counts.add (h : m.Counts handle) {stored : Object} (hs : stored.Counted) :
    Counts handle { m with heap := (m.heap.add stored).2 } := by
  intro object hg
  rcases Heap.get?_of_get?_add hg with rfl | hg
  · exact hs
  · exact h object hg

/-- The length of an array stays right if a change of that array keeps it right. -/
theorem Counts.modify (h : m.Counts handle) {changed : Handle} {f : Object → Object}
    (hf : handle = changed → ∀ object, m.heap.get? changed = some object → object.Counted →
      (f object).Counted) :
    Counts handle { m with heap := m.heap.modify changed f } := by
  intro object hg
  rw [Heap.get?_modify] at hg
  split at hg
  · rename_i hsame
    obtain ⟨before, hbefore, rfl⟩ := Option.map_eq_some_iff.mp hg
    exact hf hsame before hbefore (h before (hsame ▸ hbefore))
  · exact h object hg

/-- The field of an array stays right whatever is done but storing it. -/
instance : Stable (Counts handle) where
  calls _ h := h
  statics _ h := h
  write _ h := h
  files _ h := h
  make _ hm h := h.add hm.counted
  setItems hlist items h := h.modify fun _ object hg _ => by
    obtain ⟨found, hfound, hs⟩ := slot_of_listOf hlist
    rw [hg] at hfound
    cases hfound
    refine Object.counted_of_slot_zero fun elements => ?_
    obtain ⟨hlt, -⟩ := List.getElem?_eq_some_iff.mp hs
    simp [Object.slot?, Object.setSlot, hlt]
  setElement changed index v h := by
    refine Exec.retained_query_bind (fun ⟨position, stored⟩ _ h => ?_) h
    refine Counts.modify h fun _ object _ hcounted => hcounted.modifySlot fun slot elements hs => ?_
    cases slot with
    | array before =>
      cases hs
      exact ⟨before, rfl, by simp [Elements.put, Elements.size]⟩
    | value | text | list => cases hs

/-- Storing a field of one object leaves the others as they are. -/
theorem retains_setField_of_ne {changed : Handle} (hne : handle ≠ changed) (name : String)
    (v : Value) : Exec.Retains (Counts handle) (Exec.setField changed name v) :=
  fun _ => Exec.retained_query_bind fun _ _ h => Counts.modify h fun hsame => absurd hsame hne

end Counting

end Machine

/-! ## Stored fields -/

namespace Exec

open Machine

/-- Stores the value on top of the evaluation stack in a field of the object beneath it, and gives
the handle of the object. -/
def storeBeneath (field : FieldRef) : Exec Handle := do
  let value ← pop
  let handle ← popHandle
  setField handle field.name value
  return handle

/-- A field that cannot be stored changes nothing. -/
theorem setField_eq_error {handle : Handle} {name : String} {value : Value} {fault : Fault}
    {m m' : Machine} (h : setField handle name value m = .error fault m') : m' = m := by
  unfold setField at h
  cases hf : m.fieldOf handle name with
  | error other =>
    have hq : query (·.fieldOf handle name) m = .error other m := by rw [query_apply, hf]
    rw [bind_of_error _ hq] at h
    cases h
    rfl
  | ok found =>
    have hq : query (·.fieldOf handle name) m = .ok found m := by rw [query_apply, hf]
    rw [bind_of_ok _ hq] at h
    cases h

end Exec

namespace Machine

/-- The handle of the object in which the instruction stores a field. -/
def storedInto? (site : Instruction × Machine) : Option Handle :=
  match site.1.task with
  | .storeField field => Outcome.result? (Exec.storeBeneath field site.2)
  | _ => none

/-- An instruction that stores no field of an array leaves its field right. -/
theorem spares_of_storedInto? {handle : Handle} {site : Instruction × Machine}
    (h : storedInto? site ≠ some handle) : Spares (Counts handle) site := by
  obtain ⟨inst, m⟩ := site
  by_cases hstore : ∃ field, inst.task = .storeField field
  · obtain ⟨field, htask⟩ := hstore
    have hperform : m.Counts handle →
        Counts handle (Outcome.machine (Exec.perform (.storeField field) m)) := by
      refine Exec.retained_bind (Exec.retains_pop m) fun value m₁ hpop => ?_
      refine Exec.retained_bind (Exec.retains_popHandle m₁) fun found m₂ hfound hm => ?_
      by_cases hsame : handle = found
      · subst hsame
        cases hset : Exec.setField handle field.name value m₂ with
        | ok _ m₃ =>
          have hstored : Exec.storeBeneath field m = .ok handle m₃ := by
            rw [Exec.storeBeneath, Exec.bind_of_ok _ hpop, Exec.bind_of_ok _ hfound,
              Exec.bind_of_ok _ hset]
            rfl
          rw [storedInto?, htask] at h
          exact absurd (congrArg Outcome.result? hstored) h
        | error fault m₃ =>
          rw [Exec.setField_eq_error hset]
          exact hm
      · exact retains_setField_of_ne hsame field.name value m₂ hm
    unfold Spares Exec.step
    rw [htask]
    exact Exec.retained_bind hperform fun _ _ _ => id
  · exact Exec.retains_step (fun field hf => absurd ⟨field, hf⟩ hstore) m

/-- All objects stay laid out, whatever is evaluated. -/
theorem stable_laidOut (options : Options) : Stable (LaidOut options) := .of_change Change.laidOut

/-- Storing a field keeps the machine laid out at every site. -/
theorem spares_laidOut (options : Options) (site : Instruction × Machine) :
    Spares (LaidOut options) site :=
  have := stable_laidOut options
  Exec.retains_step (fun field _ handle v m => (leads_setField m handle field.name v).laidOut)
    site.2

end Machine

/-! ## Histories -/

open Machine

/-- The handles of the objects in which an action stores a field. -/
def Action.storedInto (fuel : Nat) (m : Machine) : Action → List Handle
  | .setField handle name value =>
    match Exec.setField handle name value m with
    | .ok _ _ => [handle]
    | .error _ _ => []
  | action => (action.sites fuel m).filterMap storedInto?

/-- The machines that a host gets to from a new machine by admissible actions, and those on which
its actions evaluate an instruction, each with the handles of the live objects that have had a field
stored. -/
inductive Tracked (options : Options) (files : Files) : List Handle → Machine → Prop
  | new : Tracked options files [] (Machine.new options files)
  | act {stored : List Handle} {m : Machine} {outcome : Outcome (List Value)} (action : Action)
      (fuel : Nat) (h : Tracked options files stored m) (ha : action.Admissible m)
      (hr : action.run fuel m = some outcome) :
      Tracked options files
        ((stored ++ action.storedInto fuel m).filter fun handle =>
          (outcome.machine.heap.get? handle).isSome)
        outcome.machine
  | within {stored : List Handle} {m : Machine} (action : Action) (fuel : Nat)
      {before after : List (Instruction × Machine)} {site : Instruction × Machine}
      (h : Tracked options files stored m)
      (hs : action.sites fuel m = before ++ site :: after) :
      Tracked options files (stored ++ before.filterMap storedInto?) site.2

section Tracking

variable {options : Options} {files : Files} {stored : List Handle} {m : Machine} {handle : Handle}

/-- A tracked machine is laid out. -/
theorem Tracked.laidOut (h : Tracked options files stored m) : LaidOut options m := by
  induction h with
  | new => exact laidOut_new options files
  | act action fuel _ ha hr ih => exact Action.laidOut_run ih ha hr
  | within action fuel _ hs ih =>
    have := stable_laidOut options
    exact action.lasts_sites fuel ih _ _ _ hs fun earlier _ => spares_laidOut options earlier

/-- Behind an action, the fields that were stored are those before it and those of its sites. -/
theorem Tracked.advance (h : Tracked options files stored m) (fuel : Nat) (action : Action)
    (ha : action.Admissible m) : ∃ kept, kept ⊆ stored ++ action.storedInto fuel m ∧
      Tracked options files kept (Action.advance fuel m action) := by
  unfold Action.advance
  cases hr : action.run fuel m with
  | none => exact ⟨stored, List.subset_append_left _ _, h⟩
  | some outcome => exact ⟨_, List.filter_sublist.subset, .act action fuel h ha hr⟩

/-- What an action evaluates leaves the field of an array right if the action stores no field of
it. -/
theorem Action.spares_sites {action : Action} {fuel : Nat}
    (h : handle ∉ action.storedInto fuel m) :
    ∀ site ∈ action.sites fuel m, Spares (Counts handle) site := by
  intro site hm
  refine spares_of_storedInto? fun hs => ?_
  have hstored : handle ∈ (action.sites fuel m).filterMap storedInto? :=
    List.mem_filterMap.mpr ⟨site, hm, hs⟩
  cases action with
  | setField changed name value => cases hm
  | _ => exact h hstored

/-- An action leaves the field of an array right if it stores no field of it. -/
theorem Action.counts_run {action : Action} {fuel : Nat} {outcome : Outcome (List Value)}
    (hr : action.run fuel m = some outcome) (h : handle ∉ action.storedInto fuel m)
    (hc : m.Counts handle) : outcome.machine.Counts handle := by
  obtain ⟨image, -, hm⟩ | ⟨-, hm⟩ | ⟨type, -, hm⟩ | ⟨changed, name, value, rfl, hm⟩ | hstable :=
    Action.run_cases_stable hr
  · rw [hm, Machine.load, machine_loadModule]
    exact hc
  · rw [hm]
    exact fun object hg => hc object (Heap.get?_collect_eq_some_iff.mp hg).1
  · have hmake : Exec.instantiate type m = Exec.store ⟨type, Exec.initialSlots m type⟩ m := rfl
    rw [hm, hmake, Exec.store]
    split
    · exact hc
    · exact hc.add (counted_initial m type)
  · rw [hm]
    by_cases hsame : handle = changed
    · subst hsame
      rw [Action.storedInto] at h
      cases hset : Exec.setField handle name value m with
      | ok _ m' =>
        rw [hset] at h
        exact absurd List.mem_cons_self h
      | error fault m' =>
        rw [Exec.setField_eq_error hset]
        exact hc
    · exact retains_setField_of_ne hsame name value m hc
  · exact hstable (Counts handle) (Action.spares_sites h) hc

/-- An array that has had no field stored has the number of its elements in its field. -/
theorem Tracked.counts (h : Tracked options files stored m) (hn : handle ∉ stored) :
    m.Counts handle := by
  induction h with
  | new =>
    intro object hg
    exact nomatch (Heap.get?_eq_none_of_size_le (Nat.zero_le _)).symm.trans hg
  | act action fuel _ _ hr ih =>
    intro object hg
    rw [List.mem_filter, hg, Option.isSome_some, and_iff_left rfl, List.mem_append, not_or] at hn
    exact Action.counts_run hr hn.2 (ih hn.1) object hg
  | @within _ _ action fuel before _ _ _ hs ih =>
    rw [List.mem_append, not_or] at hn
    refine action.lasts_sites fuel (ih hn.1) _ _ _ hs fun earlier hm => ?_
    exact spares_of_storedInto? fun hstored =>
      hn.2 (List.mem_filterMap.mpr ⟨earlier, hm, hstored⟩)

end Tracking

/-! ## Reading the lengths -/

namespace Exec

/-- Loading a length: the reference is pushed, and `ldlen` puts the length in its place. -/
def loadLength (handle : Handle) (offset : UInt32) : Exec Value := do
  push (.ref handle)
  let _ ← step ⟨.ldlen, offset, none⟩
  pop

/-- The length that is loaded is the number of elements. -/
theorem loadLength_eq_ok {m : Machine} (hm : m.calls.frames ≠ []) {handle : Handle}
    {elements : Elements} (h : m.arrayOf handle = .ok elements) (offset : UInt32) :
    loadLength handle offset m = .ok (.int32 (Int32.ofNat elements.size)) m := by
  have hquery : query (·.arrayOf handle) m = .ok elements m := by rw [query_apply, h]
  have hperform : perform .arrayLength (m.pushed (.ref handle)) =
      .ok () (m.pushed (.int32 (Int32.ofNat elements.size))) := by
    rw [perform, bind_of_ok _ (popHandle_pushed hm), bind_of_ok _ hquery]
    exact push_eq_ok hm
  have hstep : step ⟨.ldlen, offset, none⟩ (m.pushed (.ref handle)) =
      .ok .next (m.pushed (.int32 (Int32.ofNat elements.size))) :=
    bind_of_ok _ hperform
  rw [loadLength, bind_of_ok _ (push_eq_ok hm), bind_of_ok _ hstep]
  exact pop_pushed hm

end Exec

/-- The handle names an array of the elements, whose field has the value; and this is what the two
instructions load, whenever a method runs. -/
structure Machine.Measures (m : Machine) (handle : Handle) (elements : Elements) (length : Value) :
    Prop where
  arrayOf : m.arrayOf handle = .ok elements
  fieldOf : m.fieldOf handle "Length" = .ok (1, length)
  ldlen : m.calls.frames ≠ [] → ∀ offset,
    Exec.loadLength handle offset m = .ok (.int32 (Int32.ofNat elements.size)) m
  ldfld : m.calls.frames ≠ [] → ∀ (field : FieldRef) (offset : UInt32), field.name = "Length" →
    Exec.loadField handle field offset m = .ok length m

namespace Library

/-- The length of an array is its second field. -/
theorem fieldSlot_array : catalog.fieldSlot coreTypes.array "Length" = .ok 1 := by
  decide +kernel

end Library

namespace Machine

variable {options : Options} {m : Machine} {handle : Handle} {object : Object}
  {elements : Elements} {length : Value}

/-- The length of an array is its second field, whatever was loaded. -/
theorem LaidOut.fieldSlot_array (h : LaidOut options m) :
    m.catalog.fieldSlot m.core.array "Length" = .ok 1 := by
  have hslot := Library.fieldSlot_array
  unfold Catalog.fieldSlot at hslot ⊢
  rw [h.core, h.catalog.type_eq Library.hasFields_array.1]
  split at hslot
  · cases hslot
    rfl
  · cases hslot

/-- The length that is read from an array is the value in its second slot. -/
theorem LaidOut.measures (h : LaidOut options m) (hg : m.heap.get? handle = some object)
    (ht : object.type = m.core.array) (hs : object.slots = [.array elements, .value length]) :
    m.Measures handle elements length := by
  have harray : m.arrayOf handle = .ok elements := by
    have helements : object.elements? = some elements := by
      simp [Object.elements?, Object.slot?, hs]
    refine bind_eq_ok_iff.mpr ⟨object, object_of_get? hg, ?_⟩
    rw [helements]
    rfl
  have hfield : m.fieldOf handle "Length" = .ok (1, length) := by
    refine (fieldOf_eq_ok_iff hg).mpr ⟨?_, ?_⟩
    · rw [ht]
      exact h.fieldSlot_array
    · rw [Object.slot?, hs]
      rfl
  refine ⟨harray, hfield, fun hm => Exec.loadLength_eq_ok hm harray, ?_⟩
  intro hm field offset hname
  exact Exec.loadField_eq_ok hm (hname ▸ hfield)

/-- The one field of an array that can be stored is that for its length. -/
theorem LaidOut.name_of_fieldOf (h : LaidOut options m) (hg : m.heap.get? handle = some object)
    (ht : object.type = m.core.array) (hs : object.slots = [.array elements, .value length])
    {name : String} {slot : Nat} {value : Value} (hf : m.fieldOf handle name = .ok (slot, value)) :
    name = "Length" ∧ slot = 1 := by
  obtain ⟨hslot, hvalue⟩ := (fieldOf_eq_ok_iff hg).mp hf
  obtain rfl : slot = 1 := by
    rw [Object.slot?, hs] at hvalue
    match slot, hvalue with
    | 1, _ => rfl
  rw [ht] at hslot
  exact ⟨Catalog.fieldSlot_inj hslot h.fieldSlot_array, rfl⟩

/-- A length that is stored in the field is loaded from there, and the elements are as they were. -/
theorem LaidOut.measures_withSlot (h : LaidOut options m)
    (hg : m.heap.get? handle = some object) (ht : object.type = m.core.array)
    (hs : object.slots = [.array elements, .value length]) (value : Value) :
    (m.withSlot handle 1 value).Measures handle elements value := by
  have hfield := (h.measures hg ht hs).fieldOf
  have hset : Exec.setField handle "Length" value m = .ok () (m.withSlot handle 1 value) :=
    Exec.setField_eq_ok_iff.mpr ⟨1, length, hfield, rfl⟩
  have hafter : LaidOut options (m.withSlot handle 1 value) := by
    have hleads := leads_setField m handle "Length" value
    rw [hset] at hleads
    exact hleads.laidOut h
  refine hafter.measures (get?_withSlot hg) ht ?_
  rw [Object.setSlot, hs]
  rfl

end Machine

open Exec in
/-- The two lengths of an array agree until a program or its host stores the field. In every machine
of a history, `ldlen` gives the number of the elements of an array, and `ldfld` gives the same as
long as no field has been stored through a reference to the array. The only field that can be stored
is `Length`. Whatever value is stored there is what `ldfld` gives from then on, and `ldlen` still
gives the number of the elements. -/
theorem array_lengths_agree {options : Options} {files : Files} {stored : List Handle} {m : Machine}
    (h : Tracked options files stored m) {handle : Handle} {object : Object}
    (hg : m.heap.get? handle = some object) (ht : object.type = m.core.array) :
    ∃ elements length, m.Measures handle elements length ∧
      (Int32.ofNat elements.size).toInt = elements.size ∧
      (handle ∉ stored → length = .int32 (Int32.ofNat elements.size)) ∧
      (∀ name value m', setField handle name value m = .ok () m' → name = "Length") ∧
      ∀ value, ∃ after, setField handle "Length" value m = .ok () after ∧
        (m.calls.frames ≠ [] → ∀ (field : FieldRef) (offset : UInt32), field.name = "Length" →
          storeField handle field value offset m = .ok .next after) ∧
        after.Measures handle elements value := by
  have hlaidOut := h.laidOut
  obtain ⟨elements, length, hs, hlimit⟩ :=
    (hlaidOut.objects object (Heap.mem_objects_of_get? hg)).array ht
  have hmeasures := hlaidOut.measures hg ht hs
  refine ⟨elements, length, hmeasures, toInt_ofNat_of_le_arrayLimit hlimit, ?_, ?_, ?_⟩
  · intro hn
    exact h.counts hn object hg elements length hs
  · intro name value m' hset
    obtain ⟨slot, old, hfield, -⟩ := setField_eq_ok_iff.mp hset
    exact (hlaidOut.name_of_fieldOf hg ht hs hfield).1
  · intro value
    refine ⟨m.withSlot handle 1 value, ?_, ?_, hlaidOut.measures_withSlot hg ht hs value⟩
    · exact setField_eq_ok_iff.mpr ⟨1, length, hmeasures.fieldOf, rfl⟩
    · intro hm field offset hname
      exact storeField_eq_ok hm (hname ▸ hmeasures.fieldOf)

/-- A module with one method, which makes two arrays and stores a length in the first of them. -/
def relabelling : Image where
  name := "App"
  types := [{
    nameSpace := ""
    name := "Program"
    base := none
    fields := []
    constructors := []
    methods := [{
      name := "Run"
      signature := "static ()object"
      isAbstract := false
      isVirtual := false
      -- Makes an array of two, stores five as its length, makes an array of three and returns it.
      code := [0x18, 0x8D, 0x01, 0x00, 0x00, 0x01, 0x1B, 0x7D, 0x01, 0x00, 0x00, 0x04,
        0x19, 0x8D, 0x01, 0x00, 0x00, 0x01, 0x2A] }] }]
  strings := .empty
  members := .ofList [
    (⟨0x04000001⟩, .field "[mscorlib]System.Array" "Length" (some "int32")),
    (⟨0x01000001⟩, .type "int32")]

/-- A machine on which the module is loaded. -/
def relabellingLoaded : Machine := Action.advance 0 (Machine.new {} .empty) (.load relabelling)

/-- The instructions of the method. -/
def relabellingSites : List (Instruction × Machine) :=
  (Action.call ⟨32⟩ []).sites 8 relabellingLoaded

/-- The field that the method stores. -/
def lengthField : FieldRef := ⟨⟨"mscorlib", "System", "Array"⟩, "Length", some Library.int32⟩

private theorem tracked_relabellingLoaded : Tracked {} .empty [] relabellingLoaded := by
  obtain ⟨kept, hkept, hloaded⟩ := Tracked.new.advance 0 (.load relabelling) trivial
  have hnone : Action.storedInto 0 (Machine.new {} .empty) (.load relabelling) = [] := rfl
  rw [hnone] at hkept
  rwa [List.subset_nil.mp hkept] at hloaded

/-- What is known of the machine on which the method returns. -/
private theorem tracked_relabelled {α : Type} {f : Machine → α} {a : α}
    (h : relabellingSites.getLast?.map (fun site => f site.2) = some a) :
    ∃ m, Tracked {} .empty [⟨0, 0⟩] m ∧ m.core = Library.coreTypes ∧ f m = a := by
  obtain ⟨site, hlast, hfact⟩ := Option.map_eq_some_iff.mp h
  obtain ⟨before, hsplit⟩ := List.getLast?_eq_some_iff.mp hlast
  have hstored : relabellingSites.dropLast.filterMap Machine.storedInto? = [⟨0, 0⟩] := by
    decide +kernel
  rw [hsplit, List.dropLast_concat] at hstored
  have htracked := tracked_relabellingLoaded.within (.call ⟨32⟩ []) 8 hsplit
  rw [hstored, List.nil_append] at htracked
  exact ⟨site.2, htracked, htracked.laidOut.core, hfact⟩

/-- Both lengths of the second array are three. -/
theorem array_lengths_agree_untouched :
    ∃ m elements, Tracked {} .empty [⟨0, 0⟩] m ∧ m.Measures ⟨1, 0⟩ elements (.int32 3) ∧
      elements.size = 3 := by
  obtain ⟨m, htracked, hcore, hfacts⟩ := tracked_relabelled (f := fun m =>
      ((m.heap.get? ⟨1, 0⟩).map (·.type), (m.arrayOf ⟨1, 0⟩).toOption.map (·.size)))
    (a := (some ⟨9⟩, some 3)) (by decide +kernel)
  obtain ⟨htype, hsize⟩ := Prod.mk.inj hfacts
  obtain ⟨object, hg, htype⟩ := Option.map_eq_some_iff.mp htype
  have harray : object.type = m.core.array := by
    rw [htype, hcore]
    decide +kernel
  obtain ⟨elements, length, hmeasures, -, hagree, -⟩ := array_lengths_agree htracked hg harray
  have hcount : elements.size = 3 := by
    rw [hmeasures.arrayOf] at hsize
    exact Option.some.inj hsize
  obtain rfl := hagree (by decide)
  rw [hcount] at hmeasures
  exact ⟨m, elements, htracked, hmeasures, hcount⟩

/-- The first array has two elements, and its field says five. -/
theorem stored_length_differs :
    ∃ m object, Tracked {} .empty [⟨0, 0⟩] m ∧ m.heap.get? ⟨0, 0⟩ = some object ∧
      object.type = m.core.array ∧
      Outcome.result? (Exec.loadLength ⟨0, 0⟩ 0 m) = some (.int32 2) ∧
      Outcome.result? (Exec.loadField ⟨0, 0⟩ lengthField 0 m) = some (.int32 5) := by
  obtain ⟨m, htracked, hcore, hfacts⟩ := tracked_relabelled (f := fun m =>
      ((m.heap.get? ⟨0, 0⟩).map (·.type), Outcome.result? (Exec.loadLength ⟨0, 0⟩ 0 m),
        Outcome.result? (Exec.loadField ⟨0, 0⟩ lengthField 0 m)))
    (a := (some ⟨9⟩, some (.int32 2), some (.int32 5))) (by decide +kernel)
  obtain ⟨htype, hlengths⟩ := Prod.mk.inj hfacts
  obtain ⟨hldlen, hldfld⟩ := Prod.mk.inj hlengths
  obtain ⟨object, hg, htype⟩ := Option.map_eq_some_iff.mp htype
  have harray : object.type = m.core.array := by
    rw [htype, hcore]
    decide +kernel
  exact ⟨m, object, htracked, hg, harray, hldlen, hldfld⟩

end ManagedCode
