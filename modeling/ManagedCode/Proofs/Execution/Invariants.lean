import ManagedCode.Proofs.Execution.Histories
import ManagedCode.Proofs.Instruction.Operands

/-!
# What holds at every step

A program changes a machine in a few ways only: it moves on in the call stack, stores a static
field, writes to the console or a file, makes an object of one of four forms, replaces the items of
a list, an element of an array or the value of a field. A property that survives all of these but
the last is called stable. It is steady if it survives them as an instruction makes them, which
leaves a frame its method and its caller; every stable property is steady. Every instruction and
every native behaviour retains a steady property, except an instruction that stores a field, which
has to be looked at by itself.
-/

namespace ManagedCode

namespace Machine

/-- The objects that a program makes. -/
inductive Makes (m : Machine) : Object → Prop
  | string (text : String) : m.Makes ⟨m.core.string, [.text text]⟩
  | array (elements : Elements) (h : elements.size ≤ m.arrayLimit) :
      m.Makes ⟨m.core.array, [.array elements, .value (.int32 (Int32.ofNat elements.size))]⟩
  | list (items : Array Value) : m.Makes ⟨m.core.list, [.list items]⟩
  /-- An object to construct is of the type that declares its constructor. -/
  | constructed (id : MethodId) :
      m.Makes ⟨(m.catalog.method id).declaringType,
        Exec.initialSlots m (m.catalog.method id).declaringType⟩

/-- What a program writes, the objects that it makes and the items and elements that it stores keep
the property. -/
class Durable (P : Machine → Prop) : Prop where
  write {m : Machine} (text : String) : P m → P { m with output := m.output ++ text }
  files {m : Machine} (files : Files) : P m → P { m with files }
  make {m : Machine} {object : Object} (hr : m.heap.isFull = false) (h : m.Makes object) :
    P m → P { m with heap := (m.heap.add object).2 }
  setItems {m : Machine} {handle : Handle} {old : Array Value} (h : m.listOf handle = .ok old)
    (items : Array Value) : P m → P (Outcome.machine (Exec.setItems handle items m))
  setElement {m : Machine} (handle : Handle) (index : Int) (v : Value) :
    P m → P (Outcome.machine (Exec.setElement handle index v m))

/-- Every change that a program makes keeps the property, but for the storing of a field. -/
class Stable (P : Machine → Prop) : Prop extends Durable P where
  calls {m : Machine} (calls : CallStack) : P m → P { m with calls }
  statics {m : Machine} (statics : Statics) : P m → P { m with statics }

/-- Every change that a program makes within a frame keeps the property, but for the storing of a
field. The frame stays that of its method and of its caller, and static fields are stored for types
to which a reference leads. -/
class Steady (P : Machine → Prop) : Prop extends Durable P where
  frame {m : Machine} {f : Frame → Frame} (h : ∀ frame, m.calls.top? = some frame →
    (f frame).caller = frame.caller ∧ (f frame).method = frame.method) :
    P m → P { m with calls := m.calls.modifyTop f }
  static {m : Machine} {ref : TypeRef} {type : TypeId} (h : m.catalog.resolveType ref = .ok type)
    (name : String) (value : Value) :
    P m → P { m with statics := m.statics.set type name value }

/-- A property that any call stack and any static fields keep is kept within a frame. -/
instance {P : Machine → Prop} [Stable P] : Steady P where
  frame _ := Stable.calls _
  static _ _ _ := Stable.statics _

/-! ## What answers say about objects -/

/-- A live handle leads to its object. -/
theorem object_of_get? {m : Machine} {handle : Handle} {object : Object}
    (h : m.heap.get? handle = some object) : m.object handle = .ok object := by
  simp only [Machine.object, Heap.get, h]
  rfl

/-- A handle that leads to an object is live. -/
theorem get?_of_object {m : Machine} {handle : Handle} {object : Object}
    (h : m.object handle = .ok object) : m.heap.get? handle = some object := by
  unfold Machine.object Heap.get at h
  split at h
  · rename_i found hg
    cases h
    exact hg
  · cases h

/-- Naming an error differently does not make a success of it. -/
theorem eq_ok_of_mapError {ε ε' α : Type} {f : ε → ε'} {x : Except ε α} {a : α}
    (h : x.mapError f = .ok a) : x = .ok a := by
  cases x with
  | ok b =>
    cases h
    rfl
  | error e => cases h

/-- A list has its items in its first slot. -/
theorem slot_of_listOf {m : Machine} {handle : Handle} {items : Array Value}
    (h : m.listOf handle = .ok items) :
    ∃ object, m.heap.get? handle = some object ∧ object.slot? 0 = some (.list items) := by
  obtain ⟨object, ho, hitems⟩ := bind_eq_ok_iff.mp h
  refine ⟨object, get?_of_object ho, ?_⟩
  unfold Object.items? at hitems
  split at hitems
  · rename_i found hfound
    split at hfound
    · rename_i hs
      cases hfound
      cases hitems
      exact hs
    · cases hfound
  · cases hitems

/-- A field has its value in the slot that is found for it. -/
theorem slot_of_fieldOf {m : Machine} {handle : Handle} {name : String} {slot : Nat} {v : Value}
    (h : m.fieldOf handle name = .ok (slot, v)) :
    ∃ object, m.heap.get? handle = some object ∧ object.slot? slot = some (.value v) := by
  obtain ⟨object, ho, h⟩ := bind_eq_ok_iff.mp h
  obtain ⟨found, _, h⟩ := bind_eq_ok_iff.mp h
  refine ⟨object, get?_of_object ho, ?_⟩
  split at h
  · rename_i hs
    cases h
    exact hs
  · cases h

/-- A length that is allowed is given back and within the limit. -/
theorem length_of_checkArrayLength {m : Machine} {n length : Nat}
    (h : m.checkArrayLength n = .ok length) : length = n ∧ n ≤ m.arrayLimit := by
  unfold checkArrayLength at h
  split at h
  · cases h
  · split at h
    · rename_i hle
      cases h
      exact ⟨Int.toNat_natCast n, Int.ofNat_le.mp hle⟩
    · cases h

end Machine

/-! ## Computations -/

namespace Exec

open Machine

/-- A sequence succeeds exactly if both of its parts do. -/
theorem sequence_eq_ok_iff {ε σ α β : Type} {x : EStateM ε σ α} {f : α → EStateM ε σ β} {s s' : σ}
    {b : β} : (x >>= f) s = .ok b s' ↔ ∃ a s₁, x s = .ok a s₁ ∧ f a s₁ = .ok b s' := by
  cases hx : x s with
  | ok a s₁ => simp [bind_of_ok f hx, and_assoc]
  | error fault s₁ => simp [bind_of_error f hx]

/-- A question succeeds exactly if it has an answer, and leaves the machine as it is. -/
theorem query_eq_ok_iff {α : Type} {f : Machine → Except Fault α} {m m' : Machine} {a : α} :
    query f m = .ok a m' ↔ f m = .ok a ∧ m' = m := by
  rw [query_apply]
  cases f m <;> simp [eq_comm]

/-- The computation keeps the property, also when it faults. -/
def Retains (P : Machine → Prop) {α : Type} (x : Exec α) : Prop :=
  ∀ m, P m → P (Outcome.machine (x m))

section Retaining

variable {P : Machine → Prop}

/-- The second part of a sequence may rely on what the first one gave. -/
theorem retained_bind {α β : Type} {x : Exec α} {f : α → Exec β} {m : Machine}
    (hx : P m → P (Outcome.machine (x m)))
    (hf : ∀ a m', x m = .ok a m' → P m' → P (Outcome.machine (f a m'))) :
    P m → P (Outcome.machine ((x >>= f) m)) := by
  cases hxm : x m with
  | ok a m' =>
    rw [hxm] at hx
    rw [bind_of_ok f hxm]
    exact fun h => hf a m' hxm (hx h)
  | error fault m' =>
    rw [hxm] at hx
    rwa [bind_of_error f hxm]

/-- A sequence keeps the property if both of its parts do. -/
theorem Retains.bind {α β : Type} {x : Exec α} {f : α → Exec β} (hx : Retains P x)
    (hf : ∀ a, Retains P (f a)) : Retains P (x >>= f) :=
  fun m => retained_bind (hx m) fun a m' _ => hf a m'

/-- Giving a value changes nothing. -/
theorem retains_pure {α : Type} (a : α) : Retains P (pure a) := fun _ => id

/-- Raising a fault changes nothing. -/
theorem retains_throw {α : Type} (fault : Fault) : Retains P (throw fault : Exec α) :=
  fun _ => id

/-- Asking a question changes nothing. -/
theorem retains_query {α : Type} (f : Machine → Except Fault α) : Retains P (query f) := by
  intro m
  rw [query_apply]
  split <;> exact id

/-- What follows a question may rely on the answer. -/
theorem retained_query_bind {α β : Type} {f : Machine → Except Fault α} {g : α → Exec β}
    {m : Machine}
    (h : ∀ a, f m = .ok a → P m → P (Outcome.machine (g a m))) :
    P m → P (Outcome.machine ((query f >>= g) m)) := by
  refine retained_bind (retains_query f m) fun a m' ha => ?_
  obtain ⟨ha, rfl⟩ := query_eq_ok_iff.mp ha
  exact h a ha

/-- What follows a question has to keep the property for every answer. -/
theorem Retains.query_bind {α β : Type} {f : Machine → Except Fault α} {g : α → Exec β}
    (h : ∀ a, Retains P (g a)) : Retains P (query f >>= g) :=
  (retains_query f).bind h

/-- What keeps the property may be done for every item of a list. -/
theorem retains_mapM {α β : Type} {f : α → Exec β} (hf : ∀ a, Retains P (f a)) (items : List α) :
    Retains P (items.mapM f) := by
  induction items with
  | nil =>
    rw [List.mapM_nil]
    exact retains_pure _
  | cons a items ih =>
    rw [List.mapM_cons]
    exact (hf a).bind fun _ => ih.bind fun _ => retains_pure _

end Retaining

section Stability

variable {P : Machine → Prop} [Steady P]

/-! ## The running frame -/

/-- A change of the top frame keeps the property if the frame stays that of its method. -/
theorem retains_modifyTop {f : Frame → Frame}
    (h : ∀ frame, (f frame).caller = frame.caller ∧ (f frame).method = frame.method) :
    Retains P (update fun m => { m with calls := m.calls.modifyTop f }) :=
  fun _ => Steady.frame fun frame _ => h frame

/-- A push changes the stack of the top frame only. -/
theorem retains_push (v : Value) : Retains P (push v) := by
  intro m
  unfold push
  split
  · exact id
  · exact Steady.frame fun _ _ => ⟨rfl, rfl⟩

/-- A value is popped from the stack of the top frame only. -/
theorem retains_pop : Retains P pop := by
  intro m
  unfold pop
  split
  · exact id
  · rename_i v rest hpop
    obtain ⟨frame, ht, hpop⟩ := Option.bind_eq_some_iff.mp hpop
    obtain rfl := Frame.pop?_eq_some hpop
    apply Steady.frame
    intro top htop
    rw [ht] at htop
    cases htop
    exact ⟨rfl, rfl⟩

/-- Popping a value does not load anything. -/
theorem catalog_of_pop {m m' : Machine} {v : Value} (h : pop m = .ok v m') :
    m'.catalog = m.catalog := by
  have hpop : Composed [] pop fun v => [v] := .pop
  have hsame := hpop.sameCallers m
  rw [h] at hsame
  exact hsame.catalog

/-- Values are taken from the stack of the top frame only. -/
theorem retains_takeTop (count : Nat) : Retains P (takeTop count) := by
  intro m
  unfold takeTop
  split
  · split <;> exact id
  · split
    · exact id
    · exact Steady.frame fun _ _ => ⟨rfl, rfl⟩

/-- A value is slipped into the stack of the top frame only. -/
theorem retains_insertBeneath (depth : Nat) (v : Value) (method : String) :
    Retains P (insertBeneath depth v method) := by
  intro m
  unfold insertBeneath
  split
  · exact id
  · split
    · exact id
    · exact Steady.frame fun _ _ => ⟨rfl, rfl⟩

/-! ## Objects -/

/-- Storing an object that programs make keeps the property, on a full heap as well. -/
theorem retained_store {m : Machine} {object : Object} (h : m.Makes object) :
    P m → P (Outcome.machine (store object m)) := by
  unfold store
  split
  · exact id
  · rename_i hr
    exact Durable.make (by simpa using hr) h

/-- A new object of a type has the slots that its type prescribes. -/
theorem retained_instantiate {m : Machine} {type : TypeId}
    (h : m.Makes ⟨type, initialSlots m type⟩) :
    P m → P (Outcome.machine (instantiate type m)) := by
  refine retained_query_bind fun slots hs => ?_
  cases hs
  exact retained_store h

/-- A string is one of the objects that programs make. -/
theorem retains_allocString (text : String) : Retains P (allocString text) := by
  intro m
  refine retained_query_bind fun type ht => ?_
  cases ht
  exact retained_bind (retained_store (.string text)) fun _ _ _ => id

/-- Programs make arrays of a length within the limit, which is checked first. -/
theorem retains_allocArray (elements : Elements) : Retains P (allocArray elements) := by
  intro m
  refine retained_query_bind fun length hl => ?_
  obtain ⟨rfl, hlimit⟩ := length_of_checkArrayLength hl
  refine retained_query_bind fun type ht => ?_
  cases ht
  exact retained_bind (retained_store (.array elements hlimit)) fun _ _ _ => id

/-- A list is one of the objects that programs make. -/
theorem retains_allocList (items : Array Value) : Retains P (allocList items) := by
  intro m
  refine retained_query_bind fun type ht => ?_
  cases ht
  exact retained_bind (retained_store (.list items)) fun _ _ _ => id

/-! ## The outside -/

/-- Writing to the console is one of the changes that a program makes. -/
theorem retains_write (text : String) : Retains P (write text) := fun _ => Durable.write text

/-- Writing a file is such a change too, and a file that cannot be written changes nothing. -/
theorem retains_writeFile (path text : String) : Retains P (writeFile path text) := by
  intro m
  unfold writeFile
  split
  · exact Durable.files _
  · exact id

/-! ## Instructions -/

/-- Two operands are popped one after the other. -/
theorem retains_popTwo : Retains P popTwo :=
  retains_pop.bind fun _ => retains_pop.bind fun _ => retains_pure _

/-- A reference is popped and looked at. -/
theorem retains_popHandle : Retains P popHandle := retains_pop.bind fun _ => retains_query _

/-- An index is popped and looked at. -/
theorem retains_popIndex : Retains P popIndex :=
  retains_pop.bind fun _ => Retains.query_bind fun _ => retains_pure _

/-- A test pops its operands. -/
theorem retains_branches (test : BranchTest) : Retains P (branches test) := by
  cases test with
  | isFalse => exact retains_pop.bind fun _ => retains_pure _
  | isTrue => exact retains_pop.bind fun _ => retains_pure _
  | compares op => exact retains_popTwo.bind fun _ => retains_query _

/-- The arguments of a method are taken from the stack and put in order. -/
theorem retains_takeArguments (id : MethodId) : Retains P (takeArguments id) :=
  Retains.query_bind fun _ => (retains_takeTop _).bind fun _ => retains_query _

/-- A task that goes on with the next instruction keeps a steady property, if the storing of a field
does. -/
theorem retains_perform {task : Task} (hf : ∀ field, task = .storeField field →
    ∀ handle v, Retains P (setField handle field.name v)) : Retains P (perform task) := by
  cases task with
  | constant v => exact retains_push v
  | loadArgument index => exact Retains.query_bind retains_push
  | storeArgument index =>
    refine retains_pop.bind fun _ => Retains.query_bind fun _ => ?_
    exact retains_modifyTop fun _ => ⟨rfl, rfl⟩
  | loadLocal index => exact Retains.query_bind retains_push
  | storeLocal index =>
    refine retains_pop.bind fun _ => Retains.query_bind fun _ => ?_
    exact retains_modifyTop fun _ => ⟨rfl, rfl⟩
  | duplicate => exact retains_pop.bind fun v => (retains_push v).bind fun _ => retains_push v
  | discard => exact retains_pop.bind fun _ => retains_pure _
  | negate => exact retains_pop.bind fun _ => Retains.query_bind retains_push
  | complement => exact retains_pop.bind fun _ => Retains.query_bind retains_push
  | binary op => exact retains_popTwo.bind fun _ => Retains.query_bind retains_push
  | compare op => exact retains_popTwo.bind fun _ => Retains.query_bind fun _ => retains_push _
  | convert conversion => exact retains_pop.bind fun _ => Retains.query_bind retains_push
  | loadString text => exact (retains_allocString text).bind retains_push
  | loadField field =>
    exact retains_popHandle.bind fun _ => Retains.query_bind fun _ => retains_push _
  | storeField field =>
    refine retains_pop.bind fun v => retains_popHandle.bind fun handle => ?_
    exact hf field rfl handle v
  | loadStatic field => exact Retains.query_bind fun _ => Retains.query_bind retains_push
  | storeStatic field =>
    intro m
    refine retained_query_bind fun type ht => ?_
    refine retained_bind (retains_pop m) fun v m' hpop => ?_
    have hcatalog : m'.catalog = m.catalog := catalog_of_pop hpop
    exact Steady.static (hcatalog ▸ eq_ok_of_mapError ht) field.name v
  | newArray element =>
    refine retains_popIndex.bind fun _ => Retains.query_bind fun _ => ?_
    exact (retains_allocArray _).bind retains_push
  | arrayLength =>
    exact retains_popHandle.bind fun _ => Retains.query_bind fun _ => retains_push _
  | loadElement =>
    refine retains_popIndex.bind fun _ => retains_popHandle.bind fun _ => ?_
    exact Retains.query_bind retains_push
  | storeElement =>
    refine retains_pop.bind fun v => retains_popIndex.bind fun index => ?_
    exact retains_popHandle.bind fun handle => fun _ => Durable.setElement handle index v
  | cast target orNull => exact retains_pop.bind fun _ => Retains.query_bind retains_push
  | _ => exact retains_pure _

/-- The object to construct is of the type that declares the constructor. -/
theorem retains_construct (ref : MethodRef) : Retains P (construct ref) := by
  intro m
  refine retained_query_bind fun target _ => retained_query_bind fun method hm => ?_
  cases hm
  refine retained_bind (retained_instantiate (.constructed target)) fun handle m' _ => ?_
  refine retained_bind (retains_insertBeneath _ _ _ m') fun _ m' _ => ?_
  exact retained_bind (retains_takeArguments target m') fun _ _ _ => id

/-- Every instruction keeps a steady property, if the storing of a field does. -/
theorem retains_step {inst : Instruction} (hf : ∀ field, inst.task = .storeField field →
    ∀ handle v, Retains P (setField handle field.name v)) : Retains P (step inst) := by
  have hperform : Retains P (perform inst.task) := retains_perform hf
  unfold step
  cases htask : inst.task with
  | jump target => exact retains_pure _
  | branch test target => exact (retains_branches test).bind fun _ => retains_pure _
  | switch targets =>
    refine retains_pop.bind fun v => Retains.query_bind fun index => ?_
    split <;> exact retains_pure _
  | call ref =>
    exact Retains.query_bind fun id => (retains_takeArguments id).bind fun _ => retains_pure _
  | callVirtual ref =>
    refine Retains.query_bind fun id => Retains.query_bind fun target => ?_
    exact (retains_takeArguments target).bind fun _ => retains_pure _
  | construct ref => exact retains_construct ref
  | leave => exact retains_pure _
  | unsupported => exact retains_throw _
  | missingOperand => exact retains_throw _
  | _ => exact Retains.bind (htask ▸ hperform) fun _ => retains_pure _

end Stability

end Exec

/-! ## Native behaviours -/

namespace Native

open Exec Machine

section Asking

variable {P : Machine → Prop}

/-- Arguments are read from the frame. -/
theorem retains_argument (index : Nat) : Retains P (argument index) := retains_query _

/-- The text of an argument is looked up. -/
theorem retains_textArgument (index : Nat) : Retains P (textArgument index) :=
  Retains.query_bind fun _ => retains_query _

/-- The shown form of an argument is looked up. -/
theorem retains_displayArgument (index : Nat) : Retains P (displayArgument index) :=
  Retains.query_bind fun _ => retains_query _

/-- The shown forms of several values are looked up one after the other. -/
theorem retains_displayAll (values : List Value) :
    Retains P (values.mapM fun value => query (·.display value)) :=
  retains_mapM (fun _ => retains_query _) values

/-- The characters to split at are looked up. -/
theorem retains_separators : Retains P separators := by
  refine Retains.query_bind fun arguments => ?_
  dsimp only
  split
  · exact Retains.query_bind fun _ => retains_pure _
  · exact retains_pure _

/-- Texts are compared without a change. -/
theorem retains_equalTexts (a b : Value) : Retains P (equalTexts a b) := by
  unfold equalTexts
  split
  · exact retains_pure _
  · exact retains_pure _
  · exact retains_pure _
  · exact Retains.query_bind fun _ => Retains.query_bind fun _ => retains_pure _

/-- A list is searched without a change. -/
theorem retains_findArgument : Retains P findArgument := by
  refine Retains.query_bind fun _ => Retains.query_bind fun _ => ?_
  exact Retains.query_bind fun _ => retains_query _

/-- A capacity is checked without a change. -/
theorem retains_checkCapacity : Retains P checkCapacity := by
  refine Retains.bind (Retains.query_bind fun _ => retains_query _) fun handle => ?_
  refine Retains.query_bind fun arguments => ?_
  split
  · refine Retains.query_bind fun capacity => ?_
    have hrest : Retains P (do
        let _ ← query (·.checkArrayLength capacity.toInt)
        let _ ← query (·.listOf handle)) :=
      Retains.query_bind fun _ => Retains.query_bind fun _ => retains_pure _
    dsimp only
    split
    · exact Retains.query_bind fun _ => hrest
    · exact hrest
  · exact retains_pure _

/-- The items of the receiver are looked up. -/
theorem retains_receiverItems : Retains P receiverItems := by
  refine Retains.bind (Retains.query_bind fun _ => retains_query _) fun handle => ?_
  exact Retains.query_bind fun _ => retains_pure _

/-- The items that the receiver is found to have are those of its list. -/
theorem listOf_of_receiverItems {m m' : Machine} {handle : Handle} {items : Array Value}
    (h : receiverItems m = .ok (handle, items) m') : m' = m ∧ m.listOf handle = .ok items := by
  obtain ⟨found, m₁, hfound, hitems⟩ := sequence_eq_ok_iff.mp h
  obtain ⟨v, m₂, hv, hhandle⟩ := sequence_eq_ok_iff.mp hfound
  obtain ⟨-, rfl⟩ := query_eq_ok_iff.mp hv
  obtain ⟨-, rfl⟩ := query_eq_ok_iff.mp hhandle
  obtain ⟨read, m₃, hread, hpair⟩ := sequence_eq_ok_iff.mp hitems
  obtain ⟨hread, rfl⟩ := query_eq_ok_iff.mp hread
  cases hpair
  exact ⟨rfl, hread⟩

/-- What is done with the items of the receiver may rely on the receiver being a list. -/
theorem retained_receiverItems_bind {α : Type} {f : Handle × Array Value → Exec α} {m : Machine}
    (h : ∀ handle items, m.listOf handle = .ok items →
      P m → P (Outcome.machine (f (handle, items) m))) :
    P m → P (Outcome.machine ((receiverItems >>= f) m)) := by
  refine retained_bind (retains_receiverItems m) fun ⟨handle, items⟩ m' hfound => ?_
  obtain ⟨rfl, hlist⟩ := listOf_of_receiverItems hfound
  exact h handle items hlist

/-- The ends of a range are computed without a change. -/
theorem retains_rangeArguments : Retains P rangeArguments := by
  refine Retains.query_bind fun index => Retains.query_bind fun count => ?_
  refine retains_receiverItems.bind fun found => Retains.query_bind fun start => ?_
  refine Retains.query_bind fun count => Retains.query_bind fun stop => ?_
  split
  · exact retains_query _
  · exact retains_pure _

end Asking

section Stability

variable {P : Machine → Prop} [Steady P]

/-- A text is made a string and pushed. -/
theorem retains_pushText (text : String) : Retains P (pushText text) :=
  (retains_allocString text).bind retains_push

/-- Texts are made strings, then an array, which is pushed. -/
theorem retains_pushTexts (texts : List (List Char)) : Retains P (pushTexts texts) := by
  refine (retains_mapM (fun _ => retains_allocString _) texts).bind fun _ => ?_
  exact (retains_allocArray _).bind retains_push

/-- A numeral is read and its number pushed, or the fault is raised. -/
theorem retains_parseInt32 (text : String) : Retains P (parseInt32 text) := by
  unfold parseInt32
  split
  · exact retains_push _
  · exact retains_query _

/-- The receiver's items may be replaced by what is computed from them. -/
theorem retains_replaceItems (f : Array Value → Array Value) :
    Retains P (do
      let (handle, items) ← receiverItems
      setItems handle (f items)) :=
  fun _ => retained_receiverItems_bind fun _ items hlist => Durable.setItems hlist (f items)

/-- The receiver's items may be replaced by what is computed from them and a position in them. -/
theorem retains_replaceItemsAt (index : Value) (inclusive : Bool)
    (f : Array Value → Nat → Array Value) :
    Retains P (do
      let (handle, items) ← receiverItems
      let position ← positionOf index items.size inclusive
      setItems handle (f items position)) := by
  refine fun _ => retained_receiverItems_bind fun handle items hlist => ?_
  exact retained_query_bind fun position _ => Durable.setItems hlist (f items position)

/-- Every native behaviour keeps a steady property. -/
theorem retains_run (native : Native) : Retains P native.run := by
  cases native with
  | objectConstruct => exact retains_pure _
  | objectToString => exact (retains_displayArgument 0).bind retains_pushText
  | objectEquals =>
    refine (retains_argument 0).bind fun a => (retains_argument 1).bind fun b => ?_
    exact Retains.query_bind fun _ => retains_push _
  | stringConcat =>
    refine Retains.query_bind fun values => (retains_displayAll values).bind fun _ => ?_
    exact retains_pushText _
  | stringFormat =>
    refine (retains_textArgument 0).bind fun _ => (retains_displayArgument 1).bind fun _ => ?_
    exact retains_pushText _
  | stringJoin =>
    refine (retains_textArgument 0).bind fun _ => (retains_argument 1).bind fun _ => ?_
    refine Retains.query_bind fun values => (retains_displayAll values).bind fun _ => ?_
    exact retains_pushText _
  | stringSplit =>
    refine (retains_textArgument 0).bind fun _ => retains_separators.bind fun _ => ?_
    exact retains_pushTexts _
  | stringLength => exact (retains_textArgument 0).bind fun _ => retains_push _
  | stringEquality =>
    refine (retains_argument 0).bind fun a => (retains_argument 1).bind fun b => ?_
    exact (retains_equalTexts a b).bind fun _ => retains_push _
  | int32Parse => exact (retains_textArgument 0).bind retains_parseInt32
  | listConstruct => exact retains_checkCapacity
  | listAdd => exact (retains_argument 1).bind fun item => retains_replaceItems (·.push item)
  | listAddRange =>
    refine (retains_argument 1).bind fun range => Retains.query_bind fun added => ?_
    exact retains_replaceItems (· ++ added.toArray)
  | listCount => exact retains_receiverItems.bind fun _ => retains_push _
  | listGetItem =>
    refine (retains_argument 1).bind fun index => retains_receiverItems.bind fun found => ?_
    exact Retains.query_bind fun _ => retains_push _
  | listSetItem =>
    refine (retains_argument 1).bind fun index => (retains_argument 2).bind fun item => ?_
    exact retains_replaceItemsAt index false fun items position =>
      items.setIfInBounds position item
  | listGetRange =>
    refine retains_rangeArguments.bind fun range => retains_receiverItems.bind fun found => ?_
    exact (retains_allocList _).bind retains_push
  | listIndexOf =>
    refine retains_findArgument.bind fun found => ?_
    cases found <;> exact retains_push _
  | listContains => exact retains_findArgument.bind fun _ => retains_push _
  | listInsert =>
    refine (retains_argument 1).bind fun index => (retains_argument 2).bind fun item => ?_
    exact retains_replaceItemsAt index true fun items position =>
      items.insertIdxIfInBounds position item
  | listRemoveAt =>
    refine (retains_argument 1).bind fun index => ?_
    exact retains_replaceItemsAt index false fun items position => items.eraseIdxIfInBounds position
  | listRemoveRange =>
    refine retains_rangeArguments.bind fun ⟨start, stop⟩ => ?_
    exact retains_replaceItems fun items => items.extract 0 start ++ items.extract stop items.size
  | listClear => exact retains_replaceItems fun _ => #[]
  | fileReadAllLines =>
    refine (retains_textArgument 0).bind fun path => Retains.query_bind fun _ => ?_
    exact retains_pushTexts _
  | fileWriteAllText =>
    refine (retains_textArgument 0).bind fun path => (retains_textArgument 1).bind fun text => ?_
    exact retains_writeFile path text
  | consoleWriteLine =>
    refine Retains.query_bind fun arguments => ?_
    cases arguments with
    | nil => exact retains_write _
    | cons v rest => exact Retains.query_bind fun _ => retains_write _
  | consoleWrite => exact (retains_displayArgument 0).bind retains_write
  | environmentNewLine => exact retains_pushText _

end Stability

end Native

/-! ## Calls -/

namespace Exec

open Machine

section Stability

variable {P : Machine → Prop} [Steady P]

/-- The work of a native method is that of its behaviour, if it has one. -/
theorem retains_runNative (id : MethodId) : Retains P (runNative id) := by
  refine Retains.query_bind fun ⟨typeName, method⟩ => ?_
  dsimp only
  split
  · exact Native.retains_run _
  · exact retains_throw _

/-- A value is pushed if there is one. -/
theorem retains_pushAll (values : Option Value) : Retains P (values.forM push) := by
  cases values with
  | none => exact retains_pure _
  | some v => exact retains_push v

/-- What a call leaves is pushed. -/
theorem retains_pushResults (result created : Option Value) :
    Retains P (pushResults result created) :=
  (retains_pushAll result).bind fun _ => retains_pushAll created

end Stability

end Exec

namespace Machine

section Stability

variable {P : Machine → Prop} [Stable P]

/-- Entering a method changes the call stack only. -/
theorem Stable.enter {id : MethodId} {arguments : List Value} {m m' : Machine}
    (he : Exec.enter id arguments m = .ok () m') : P m → P m' := by
  obtain ⟨_, rfl⟩ := enter_eq_ok he
  exact Stable.calls _

/-- Leaving a frame changes the call stack only. -/
theorem Stable.exitFrame {m : Machine} : P m → P m.exitFrame := by
  unfold Machine.exitFrame
  split
  · exact Stable.calls _
  · exact id

/-- Leaving a method keeps the property, whether its work failed or not. -/
theorem Stable.leave (method : MethodId) (worked : Outcome Unit) :
    P worked.machine → P (leave method worked).machine := by
  cases worked with
  | error fault m => exact Stable.exitFrame
  | ok _ m =>
    refine fun h => ?_
    have hexited : P m.exitFrame := Stable.exitFrame h
    simp only [Machine.leave, Exec.takeResult]
    split
    · split
      · exact Stable.calls _ hexited
      · exact hexited
    · exact hexited

end Stability

/-- The arguments that the program is started with are strings and an array of them. -/
theorem retains_startArguments {P : Machine → Prop} [Steady P] (method : MethodId)
    (texts : List String) : Exec.Retains P (startArguments method texts) := by
  refine Exec.Retains.query_bind fun arity => ?_
  split
  · exact Exec.retains_pure _
  · refine (Exec.retains_mapM Exec.retains_allocString texts).bind fun strings => ?_
    exact (Exec.retains_allocArray _).bind fun _ => Exec.retains_pure _

end Machine

end ManagedCode
