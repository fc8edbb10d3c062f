import ManagedCode.Proofs.Execution.Instructions
import ManagedCode.Proofs.Renaming.Answers

/-!
# Instructions do the same up to renaming

`Paired` relates two computations that take the same primitives in the same order, on values that
are alike: they ask mirrored questions, and push, store and change what is alike. A new object gets
a name on either side, so the renaming grows on the way. Every instruction is paired with itself:
none looks at a handle other than by comparing it with another one or by asking for its object. Of
an instruction that makes a call this is said up to where it takes the arguments, since the order in
which these come depends on the options of the machine.
-/

namespace ManagedCode

/-- The values are equal, whatever the renaming. -/
def Same {α : Type} (_ : Renaming) (a b : α) : Prop := a = b

/-- The second handle is the name of the first one. -/
def Named (ρ : Renaming) (handle other : Handle) : Prop := other ∈ ρ handle

/-- Execution goes on at the same place with values that are alike. -/
inductive Flow.Alike (ρ : Renaming) : Flow → Flow → Prop
  | next : Flow.Alike ρ .next .next
  | jump (target : UInt32) : Flow.Alike ρ (.jump target) (.jump target)
  | call (id : MethodId) {vs ws : List Value} {created created' : Option Value}
      (hv : Values.Alike ρ vs ws) (hc : Option.Rel (Value.Alike ρ) created created') :
      Flow.Alike ρ (.call id vs created) (.call id ws created')
  | leave : Flow.Alike ρ .leave .leave

/-- Execution goes on in the running method or leaves it. -/
def Flow.IsLocal : Flow → Prop
  | .call .. => False
  | _ => True

/-- How a method goes on by itself does not depend on names of objects. -/
theorem Flow.IsLocal.alike {flow : Flow} (h : flow.IsLocal) (ρ : Renaming) :
    flow.Alike ρ flow := by
  cases flow with
  | next => exact .next
  | jump target => exact .jump target
  | call id arguments created => exact h.elim
  | leave => exact .leave

namespace Exec

open Machine

/-- How an instruction that makes a call finds the method to call, and for a construction makes the
object and puts it beneath the arguments. -/
def callee? : Task → Option (Exec (MethodId × Option Value))
  | .call ref => some do return (← resolveMethod ref, none)
  | .callVirtual ref => some do return (← virtualTarget (← resolveMethod ref), none)
  | .construct ref => some do
    let id ← resolveMethod ref
    let method ← query fun m => .ok (m.catalog.method id)
    let created := Value.ref (← instantiate method.declaringType)
    insertBeneath method.arity created ref.text
    return (id, some created)
  | _ => none

/-- An instruction that makes a call finds the callee and then takes its arguments. -/
theorem step_of_callee {inst : Instruction} {find : Exec (MethodId × Option Value)}
    (h : callee? inst.task = some find) :
    step inst = do
      let (id, created) ← find
      return .call id (← takeArguments id) created := by
  unfold step
  cases htask : inst.task with
  | call ref =>
    rw [htask] at h
    cases h
    simp only [bind_assoc, pure_bind]
  | callVirtual ref =>
    rw [htask] at h
    cases h
    simp only [bind_assoc, pure_bind]
  | construct ref =>
    rw [htask] at h
    cases h
    simp only [construct, bind_assoc, pure_bind]
  | _ =>
    rw [htask] at h
    cases h

/-- `x` and `y` take the same primitives on values alike by the renaming. Results are in the
relation `R` for the renaming that then holds. -/
inductive Paired : (ρ : Renaming) → {α : Type} → (x y : Exec α) →
    (R : Renaming → α → α → Prop) → Prop
  | done {ρ : Renaming} {α : Type} {R : Renaming → α → α → Prop} {a b : α} (h : R ρ a b) :
      Paired ρ (pure a) (pure b) R
  | fault {ρ : Renaming} {α : Type} {R : Renaming → α → α → Prop} {f g : Fault}
      (h : f.Alike ρ g) : Paired ρ (throw f : Exec α) (throw g) R
  | query {ρ : Renaming} {α : Type} {R : Renaming → α → α → Prop}
      {f g : Machine → Except Fault α}
      (h : ∀ m m', m.Mirrors ρ m' → Answered ρ (R ρ) (f m) (g m')) :
      Paired ρ (query f) (query g) R
  /-- The limit on arrays is the one question whose answer is not mirrored by what runs. -/
  | checkLength {ρ : Renaming} (length : Int) :
      Paired ρ (query (·.checkArrayLength length)) (query (·.checkArrayLength length)) Same
  | bind {ρ : Renaming} {α β : Type} {x y : Exec α} {f g : α → Exec β}
      {R : Renaming → α → α → Prop} {S : Renaming → β → β → Prop} (hx : Paired ρ x y R)
      (hf : ∀ ρ', ρ ≤ ρ' → ∀ a b, R ρ' a b → Paired ρ' (f a) (g b) S) :
      Paired ρ (x >>= f) (y >>= g) S
  | pop {ρ : Renaming} : Paired ρ pop pop Value.Alike
  | takeTop {ρ : Renaming} (count : Nat) : Paired ρ (takeTop count) (takeTop count) Values.Alike
  | push {ρ : Renaming} {v w : Value} (h : v.Alike ρ w) : Paired ρ (push v) (push w) Same
  | insertBeneath {ρ : Renaming} {v w : Value} (depth : Nat) (method : String)
      (h : v.Alike ρ w) :
      Paired ρ (insertBeneath depth v method) (insertBeneath depth w method) Same
  | modifyTop {ρ : Renaming} {f g : Frame → Frame}
      (h : ∀ a b, a.Alike ρ b → (f a).Alike ρ (g b)) (hf : ∀ a, (f a).caller = a.caller)
      (hg : ∀ b, (g b).caller = b.caller) :
      Paired ρ (update fun m => { m with calls := m.calls.modifyTop f })
        (update fun m => { m with calls := m.calls.modifyTop g }) Same
  | store {ρ : Renaming} {a b : Object} (h : a.Alike ρ b) : Paired ρ (store a) (store b) Named
  | modifyObject {ρ : Renaming} {handle other : Handle} {f g : Object → Object}
      (hh : Named ρ handle other) (h : ∀ a b, a.Alike ρ b → (f a).Alike ρ (g b)) :
      Paired ρ (modifyObject handle f) (modifyObject other g) Same
  | setStatic {ρ : Renaming} {v w : Value} (type : TypeId) (name : String) (h : v.Alike ρ w) :
      Paired ρ (setStatic type name v) (setStatic type name w) Same
  | write {ρ : Renaming} (text : String) : Paired ρ (write text) (write text) Same
  | writeFile {ρ : Renaming} (path text : String) :
      Paired ρ (writeFile path text) (writeFile path text) Same

variable {ρ : Renaming}

/-- Pairs whose results are related in one way are so in every weaker way. -/
theorem Paired.imp {α : Type} {x y : Exec α} {R S : Renaming → α → α → Prop}
    (hx : Paired ρ x y R) (h : ∀ ρ' a b, R ρ' a b → S ρ' a b) : Paired ρ x y S := by
  have hbind : Paired ρ (x >>= pure) (y >>= pure) S :=
    .bind hx fun ρ' _ a b hab => .done (h ρ' a b hab)
  rwa [bind_pure, bind_pure] at hbind

/-! ## Arguments, locals and objects -/

/-- What the catalog and the types of the machine say is the same on both sides. -/
theorem paired_ask {α : Type} {f : Machine → α} (h : ∀ m m', m.Mirrors ρ m' → f m = f m') :
    Paired ρ (query fun m => .ok (f m)) (query fun m => .ok (f m)) Same :=
  .query fun m m' hm => .ok (h m m' hm)

/-- The declaration of a method is the same on both sides. -/
theorem paired_method (id : MethodId) :
    Paired ρ (query fun m => .ok (m.catalog.method id)) (query fun m => .ok (m.catalog.method id))
      fun _ => Method.SameDeclaration :=
  .query fun _ _ hm => .ok (hm.catalog.method id)

/-- A result that is computed from values alone. -/
theorem paired_check {α : Type} {R : Renaming → α → α → Prop} {x y : Except Fault α}
    (h : Answered ρ (R ρ) x y) : Paired ρ (check x) (check y) R :=
  .query fun _ _ _ => h

/-- Arguments that are loaded are alike. -/
theorem paired_loadArgument (index : Nat) :
    Paired ρ (loadArgument index) (loadArgument index) Value.Alike := by
  refine .query fun m m' hm => ?_
  have ht := hm.top
  generalize m.calls.top? = x, m'.calls.top? = y at ht
  cases ht with
  | none => exact .fault (.same rfl)
  | @some a b hf =>
    have hi := rel_getElem? hf.arguments index
    have hlength := hf.arguments.length_eq
    dsimp only
    generalize a.arguments[index]? = x, b.arguments[index]? = y at hi
    cases hi with
    | none =>
      rw [hlength]
      exact .fault (.same rfl)
    | some hv => exact .ok hv

/-- Variables that are loaded are alike. -/
theorem paired_loadLocal (index : Nat) :
    Paired ρ (loadLocal index) (loadLocal index) Value.Alike := by
  refine .query fun m m' hm => ?_
  have ht := hm.top
  generalize m.calls.top? = x, m'.calls.top? = y at ht
  cases ht with
  | none => exact .fault (.same rfl)
  | @some a b hf =>
    have hi := rel_getElem? hf.locals index
    have hsize : a.locals.size = b.locals.size := hf.locals.length_eq
    rw [Array.getElem?_toList, Array.getElem?_toList] at hi
    dsimp only
    generalize a.locals[index]? = x, b.locals[index]? = y at hi
    cases hi with
    | none =>
      rw [hsize]
      exact .fault (.same rfl)
    | some hv => exact .ok hv

/-- Alike values may be stored as arguments. -/
theorem paired_storeArgument {v w : Value} (index : Nat) (hv : v.Alike ρ w) :
    Paired ρ (storeArgument index v) (storeArgument index w) Same := by
  refine .bind (paired_loadArgument index) fun ρ' hle _ _ _ => ?_
  refine .modifyTop (fun a b h => ?_) (fun _ => rfl) (fun _ => rfl)
  exact ⟨h.method, h.stack, h.locals, forall₂_set h.arguments index (hv.mono hle)⟩

/-- Alike values may be stored in variables. -/
theorem paired_storeLocal {v w : Value} (index : Nat) (hv : v.Alike ρ w) :
    Paired ρ (storeLocal index v) (storeLocal index w) Same := by
  refine .bind (paired_loadLocal index) fun ρ' hle _ _ _ => ?_
  refine .modifyTop (fun a b h => ?_) (fun _ => rfl) (fun _ => rfl)
  refine ⟨h.method, h.stack, ?_, h.arguments⟩
  rw [Array.toList_setIfInBounds, Array.toList_setIfInBounds]
  exact forall₂_set h.locals index (hv.mono hle)

/-- New objects of a type have the same slots on both sides. -/
theorem alike_initialSlots {m m' : Machine} (hm : m.Mirrors ρ m') (type : TypeId) :
    List.Forall₂ (Slot.Alike ρ) (initialSlots m type) (initialSlots m' type) := by
  unfold initialSlots
  rw [hm.core, hm.catalog.type]
  split
  · exact .cons (.list .nil) .nil
  · split
    · exact .cons (.text "") .nil
    · rw [List.forall₂_map_left_iff, List.forall₂_map_right_iff]
      exact List.forall₂_same.mpr fun field _ => .value (.number (handle?_defaultValue _))

/-- Both sides make an object of the same type, and the two get related. -/
theorem paired_instantiate (type : TypeId) :
    Paired ρ (instantiate type) (instantiate type) Named :=
  .bind (R := fun ρ => List.Forall₂ (Slot.Alike ρ))
    (.query fun _ _ hm => .ok (alike_initialSlots hm type))
    fun _ _ _ _ hs => .store ⟨rfl, hs⟩

/-- An object of one of the machine's own types, and the reference to it. -/
theorem paired_storeCore {type : Machine → TypeId} {slots slots' : List Slot}
    (ht : ∀ m m', m.Mirrors ρ m' → type m = type m')
    (hs : List.Forall₂ (Slot.Alike ρ) slots slots') :
    Paired ρ (do
        let type ← query fun m => .ok (type m)
        return Value.ref (← store ⟨type, slots⟩))
      (do
        let type ← query fun m => .ok (type m)
        return Value.ref (← store ⟨type, slots'⟩)) Value.Alike := by
  refine .bind (paired_ask ht) fun ρ₁ hle type _ htype => ?_
  refine .bind (.store ⟨htype, hs.imp fun _ _ => Slot.Alike.mono hle⟩) fun _ _ _ _ hh => ?_
  exact .done (.ref hh)

/-- Both sides make a string of the same text. -/
theorem paired_allocString (text : String) :
    Paired ρ (allocString text) (allocString text) Value.Alike :=
  paired_storeCore (fun _ _ hm => by rw [hm.core]) (.cons (.text text) .nil)

/-- Both sides make an array, with elements that are alike. -/
theorem paired_allocArray {a b : Elements} (h : a.Alike ρ b) :
    Paired ρ (allocArray a) (allocArray b) Value.Alike := by
  unfold allocArray
  rw [h.size_eq]
  refine .bind (.checkLength _) fun ρ' hle length _ hlength => ?_
  cases hlength
  have hslots : List.Forall₂ (Slot.Alike ρ')
      [.array a, .value (.int32 (Int32.ofNat length))]
      [.array b, .value (.int32 (Int32.ofNat length))] :=
    .cons (.array (h.mono hle)) (.cons (.value (.number rfl)) .nil)
  exact paired_storeCore (fun _ _ hm => by rw [hm.core]) hslots

/-- Both sides make a list, with items that are alike. -/
theorem paired_allocList {a b : Array Value} (h : Values.Alike ρ a.toList b.toList) :
    Paired ρ (allocList a) (allocList b) Value.Alike :=
  paired_storeCore (fun _ _ hm => by rw [hm.core]) (.cons (.list h) .nil)

/-- Alike items may replace those of a list under its two names. -/
theorem paired_setItems {handle other : Handle} {a b : Array Value} (hh : Named ρ handle other)
    (h : Values.Alike ρ a.toList b.toList) :
    Paired ρ (setItems handle a) (setItems other b) Same :=
  .modifyObject hh fun _ _ ho => ho.setSlot 0 (.list h)

/-- Alike values may replace an element of an array under its two names. -/
theorem paired_setElement {handle other : Handle} {v w : Value} (index : Int)
    (hh : Named ρ handle other) (hv : v.Alike ρ w) :
    Paired ρ (setElement handle index v) (setElement other index w) Same := by
  refine .bind (R := fun ρ p q => p.1 = q.1 ∧ p.2.Alike ρ q.2)
    (.query fun m m' hm => (hm.arrayOf hh).bind fun _ _ he => he.plan index hv) ?_
  rintro ρ' hle ⟨position, stored⟩ ⟨_, stored'⟩ ⟨rfl, hs⟩
  refine .modifyObject (hle _ _ hh) fun a b ho => ho.modifySlot 0 fun x y hxy => ?_
  cases hxy with
  | array he => exact .array (he.put position hs)
  | value h => exact .value h
  | text s => exact .text s
  | list h => exact .list h

/-- Alike values may be stored in a field of an object under its two names. -/
theorem paired_setField {handle other : Handle} {v w : Value} (name : String)
    (hh : Named ρ handle other) (hv : v.Alike ρ w) :
    Paired ρ (setField handle name v) (setField other name w) Same := by
  refine .bind (R := fun ρ p q => p.1 = q.1 ∧ p.2.Alike ρ q.2)
    (.query fun m m' hm => hm.fieldOf hh name) ?_
  rintro ρ' hle ⟨slot, _⟩ ⟨_, _⟩ ⟨rfl, _⟩
  exact .modifyObject (hle _ _ hh) fun a b ho => ho.setSlot slot (.value (hv.mono hle))

/-! ## Pieces of instructions -/

/-- Two operands that are popped are alike in pairs. -/
theorem paired_popTwo :
    Paired ρ popTwo popTwo fun ρ p q => p.1.Alike ρ q.1 ∧ p.2.Alike ρ q.2 :=
  .bind .pop fun _ _ _ _ hb => .bind .pop fun _ hle _ _ ha => .done ⟨ha, hb.mono hle⟩

/-- References that are popped name the same object. -/
theorem paired_popHandle : Paired ρ popHandle popHandle Named :=
  .bind .pop fun _ _ _ _ hv => paired_check hv.toHandle

/-- Indices that are popped are equal. -/
theorem paired_popIndex : Paired ρ popIndex popIndex Same :=
  .bind .pop fun _ _ _ _ hv => .bind (paired_check hv.toIndex) fun _ _ _ _ he =>
    .done (congrArg Int64.toInt he)

/-- A reference leads to the same method on both sides. -/
theorem paired_resolveMethod (ref : MethodRef) :
    Paired ρ (resolveMethod ref) (resolveMethod ref) Same := by
  refine .query fun m m' hm => ?_
  rw [hm.catalog.resolveMethod]
  exact answered_mapError fun _ => rfl

/-- A reference leads to the same type on both sides. -/
theorem paired_resolveType (ref : TypeRef) :
    Paired ρ (resolveType ref) (resolveType ref) Same := by
  refine .query fun m m' hm => ?_
  rw [hm.catalog.resolveType]
  exact answered_mapError fun _ => rfl

/-- A cast does alike with alike values. -/
theorem paired_cast (target : TypeRef) (orNull : Bool) {v w : Value} (hv : v.Alike ρ w) :
    Paired ρ (cast target orNull v) (cast target orNull w) Value.Alike := by
  refine .query fun m m' hm => ?_
  cases hv with
  | ref hh =>
    refine (hm.object hh).bind fun a b ho => ?_
    rw [ho.type, hm.catalog.resolveType, hm.catalog.isAssignable, hm.catalog.fullName]
    refine (answered_mapError fun _ => rfl).bind fun type _ htype => ?_
    cases htype
    split
    · exact .ok (.ref hh)
    · split
      · exact .ok (.number rfl)
      · exact .fault (.same rfl)
  | number hn =>
    cases v with
    | ref _ => cases hn
    | _ => exact .ok (.number rfl)

/-- A branch is taken on both sides or on neither. -/
theorem paired_branches (test : BranchTest) : Paired ρ (branches test) (branches test) Same := by
  cases test with
  | isFalse => exact .bind .pop fun _ _ _ _ hv => .done hv.isFalse_eq
  | isTrue => exact .bind .pop fun _ _ _ _ hv => .done hv.isTrue_eq
  | compares op => exact .bind paired_popTwo fun _ _ _ _ hp => paired_check (hp.1.compare op hp.2)

/-- A virtual call has the same target on both sides. -/
theorem paired_virtualTarget (id : MethodId) :
    Paired ρ (virtualTarget id) (virtualTarget id) Same := by
  refine .query fun m m' hm => ?_
  have ht := hm.top
  have hmethod := hm.catalog.method id
  dsimp only
  rw [hm.catalog.findOverride?, hmethod.isStatic, hmethod.isOverridable, hmethod.arity,
    hmethod.name]
  split
  · exact .ok rfl
  · generalize m.calls.top? = x, m'.calls.top? = y at ht
    cases ht with
    | none => exact .ok rfl
    | @some a b hf =>
      have hv := rel_getElem? hf.stack (m'.catalog.method id).arity
      simp only [Option.bind_some, Frame.peek?]
      generalize a.stack[(m'.catalog.method id).arity]? = x,
        b.stack[(m'.catalog.method id).arity]? = y at hv
      cases hv with
      | none => exact .ok rfl
      | @some v w hv =>
        cases hv with
        | ref hh =>
          refine (hm.object hh).bind fun a b ho => ?_
          rw [ho.type]
          exact .ok rfl
        | number hn =>
          cases v with
          | ref _ => cases hn
          | _ => exact .ok rfl

/-! ## Instructions -/

/-- A value that is pushed right after it was asked for. -/
theorem paired_push_of {x y : Exec Value} (h : Paired ρ x y Value.Alike) :
    Paired ρ (x >>= push) (y >>= push) Same :=
  .bind h fun _ _ _ _ hv => .push hv

/-- A task that goes on with the next instruction, if what it pushes as a constant is no reference.
-/
theorem paired_perform {task : Task} (hc : ∀ v, task = .constant v → v.handle? = none) :
    Paired ρ (perform task) (perform task) Same := by
  cases task with
  | constant v => exact .push (.number (hc v rfl))
  | loadArgument index => exact paired_push_of (paired_loadArgument index)
  | storeArgument index => exact .bind .pop fun _ _ _ _ hv => paired_storeArgument index hv
  | loadLocal index => exact paired_push_of (paired_loadLocal index)
  | storeLocal index => exact .bind .pop fun _ _ _ _ hv => paired_storeLocal index hv
  | duplicate =>
    exact .bind .pop fun _ _ _ _ hv => .bind (.push hv) fun _ hle _ _ _ => .push (hv.mono hle)
  | discard => exact .bind .pop fun _ _ _ _ _ => .done rfl
  | negate => exact .bind .pop fun _ _ _ _ hv => paired_push_of (paired_check hv.negate)
  | complement => exact .bind .pop fun _ _ _ _ hv => paired_push_of (paired_check hv.complement)
  | binary op =>
    exact .bind paired_popTwo fun _ _ _ _ hp => paired_push_of (paired_check (hp.1.binary op hp.2))
  | compare op =>
    refine .bind paired_popTwo fun _ _ _ _ hp => ?_
    refine .bind (paired_check (R := Same) (hp.1.compare op hp.2)) fun _ _ truth _ ht => ?_
    cases ht
    exact .push (.number rfl)
  | convert conversion =>
    exact .bind .pop fun _ _ _ _ hv => paired_push_of (paired_check (hv.convert conversion))
  | loadString text => exact paired_push_of (paired_allocString text)
  | loadField field =>
    refine .bind paired_popHandle fun _ _ _ _ hh => ?_
    refine .bind (R := fun ρ p q => p.1 = q.1 ∧ p.2.Alike ρ q.2)
      (.query fun m m' hm => hm.fieldOf hh field.name) fun _ _ _ _ hp => .push hp.2
  | storeField field =>
    refine .bind .pop fun _ _ _ _ hv => .bind paired_popHandle fun _ hle _ _ hh => ?_
    exact paired_setField field.name hh (hv.mono hle)
  | loadStatic field =>
    refine .bind (paired_resolveType _) fun _ _ type _ htype => ?_
    cases htype
    refine paired_push_of (.query fun m m' hm => .ok ?_)
    have hs := hm.statics.get? type field.name
    generalize m.statics.get? type field.name = x, m'.statics.get? type field.name = y at hs
    cases hs with
    | none => exact .number (handle?_defaultValue _)
    | some hv => exact hv
  | storeStatic field =>
    refine .bind (paired_resolveType _) fun _ _ type _ htype => .bind .pop fun _ _ _ _ hv => ?_
    cases htype
    exact .setStatic type field.name hv
  | newArray element =>
    refine .bind paired_popIndex fun _ _ length _ hl => ?_
    cases hl
    refine .bind (.checkLength length) fun _ _ length _ hl => ?_
    cases hl
    refine paired_push_of (paired_allocArray ⟨rfl, alike_of_numbers fun v hv => ?_⟩)
    rw [Elements.zeros, Array.toList_replicate, List.mem_replicate] at hv
    rw [hv.2]
    cases ElementKind.ofType element <;> rfl
  | arrayLength =>
    refine .bind paired_popHandle fun _ _ _ _ hh => ?_
    refine .bind (R := Elements.Alike) (.query fun m m' hm => hm.arrayOf hh) fun _ _ a b he => ?_
    rw [he.size_eq]
    exact .push (.number rfl)
  | loadElement =>
    refine .bind paired_popIndex fun _ _ index _ hi => .bind paired_popHandle fun _ _ _ _ hh => ?_
    cases hi
    exact paired_push_of
      (.query fun m m' hm => (hm.arrayOf hh).bind fun _ _ he => he.get index)
  | storeElement =>
    refine .bind .pop fun _ _ _ _ hv => .bind paired_popIndex fun _ hle₁ index _ hi => ?_
    refine .bind paired_popHandle fun _ hle₂ _ _ hh => ?_
    cases hi
    exact paired_setElement index hh (hv.mono (hle₁.trans hle₂))
  | cast target orNull =>
    exact .bind .pop fun _ _ _ _ hv => paired_push_of (paired_cast target orNull hv)
  | _ => exact .done rfl

/-- An instruction that makes no call does the same up to renaming, and goes on at the same place. -/
theorem paired_step {inst : Instruction} (h : callee? inst.task = none) :
    Paired ρ (step inst) (step inst) fun _ flow other => flow = other ∧ flow.IsLocal := by
  have hperform : Paired ρ (perform inst.task) (perform inst.task) Same :=
    paired_perform fun _ => Instruction.handle?_of_task_eq_constant
  unfold step
  cases htask : inst.task with
  | jump target => exact .done ⟨rfl, trivial⟩
  | branch test target =>
    refine .bind (paired_branches test) fun _ _ taken _ ht => ?_
    cases ht
    cases taken with
    | false => exact .done ⟨rfl, trivial⟩
    | true => exact .done ⟨rfl, trivial⟩
  | switch targets =>
    refine .bind .pop fun _ _ _ _ hv => ?_
    refine .bind (paired_check (R := Same) hv.toInt32) fun _ _ index _ hi => ?_
    cases hi
    split
    · exact .done ⟨rfl, trivial⟩
    · cases targets[index.toInt.toNat]? with
      | none => exact .done ⟨rfl, trivial⟩
      | some target => exact .done ⟨rfl, trivial⟩
  | call ref =>
    rw [htask] at h
    cases h
  | callVirtual ref =>
    rw [htask] at h
    cases h
  | construct ref =>
    rw [htask] at h
    cases h
  | leave => exact .done ⟨rfl, trivial⟩
  | unsupported => exact .fault (.same rfl)
  | missingOperand => exact .fault (.same rfl)
  | _ => exact .bind (htask ▸ hperform) fun _ _ _ _ _ => .done ⟨rfl, trivial⟩

/-! ## Calls -/

/-- The same method is called, and the objects to construct have names. -/
def CalleeAlike (ρ : Renaming) (p q : MethodId × Option Value) : Prop :=
  p.1 = q.1 ∧ Option.Rel (Value.Alike ρ) p.2 q.2

/-- Finding the callee does the same up to renaming. -/
theorem paired_callee {task : Task} {find : Exec (MethodId × Option Value)}
    (h : callee? task = some find) : Paired ρ find find CalleeAlike := by
  cases task with
  | call ref =>
    cases h
    exact .bind (paired_resolveMethod ref) fun _ _ _ _ hid => .done ⟨hid, .none⟩
  | callVirtual ref =>
    cases h
    refine .bind (paired_resolveMethod ref) fun _ _ id _ hid => ?_
    cases hid
    exact .bind (paired_virtualTarget id) fun _ _ _ _ ht => .done ⟨ht, .none⟩
  | construct ref =>
    cases h
    refine .bind (paired_resolveMethod ref) fun _ _ id _ hid => ?_
    cases hid
    refine .bind (paired_method id) fun _ _ method method' hmethod => ?_
    rw [hmethod.declaringType, hmethod.arity]
    refine .bind (paired_instantiate _) fun _ _ _ _ hh => ?_
    refine .bind (.insertBeneath _ _ (.ref hh)) fun _ hle _ _ _ => .done ⟨rfl, ?_⟩
    exact .some (.ref (hle _ _ hh))
  | _ => cases h

end Exec

end ManagedCode
