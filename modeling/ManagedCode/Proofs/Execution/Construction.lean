import ManagedCode.Proofs.Catalog.Constructors
import ManagedCode.Proofs.Catalog.Subtyping
import ManagedCode.Proofs.Execution.Dispatch
import ManagedCode.Proofs.Execution.Permanence
import ManagedCode.Proofs.Execution.Receivers

/-!
# Constructions

A construction makes an object, puts its reference beneath the arguments and calls the constructor
that its operand names. An instance constructor takes the reference with the arguments, and the
construction leaves the one that is pushed afterwards. What is found by its parameter types alone
may as well be a static initializer. This takes no receiver, so the reference beneath the arguments
stays, and the construction leaves two of them.
-/

namespace ManagedCode

namespace Exec

open Machine

variable {ref : MethodRef} {id : MethodId} {m m' : Machine} {frame : Frame} {callers : List Frame}

/-- Only a heap with room stores an object. -/
theorem isFull_of_store {object : Object} {handle : Handle} (h : store object m = .ok handle m') :
    m.heap.isFull = false := by
  unfold store at h
  split at h
  · cases h
  · rename_i hroom
    exact Bool.eq_false_iff.mpr hroom

/-- A value slipped beneath others stands under as many as there should be. -/
theorem frames_of_insertBeneath {depth : Nat} {v : Value} {method : String}
    (hf : m.calls.frames = frame :: callers) (h : insertBeneath depth v method m = .ok () m') :
    depth ≤ frame.stack.length ∧ m'.calls.frames =
      { frame with stack := frame.stack.take depth ++ v :: frame.stack.drop depth } :: callers := by
  have ht : m.calls.top? = some frame := by rw [CallStack.top?, hf, List.head?_cons]
  simp only [insertBeneath, ht] at h
  split at h
  · cases h
  · rename_i hlength
    cases h
    exact ⟨Nat.le_of_not_lt hlength, CallStack.frames_modifyTop hf⟩

/-- Arguments that are taken are gone from the stack of the active frame, and nothing else is. -/
theorem frames_of_takeArguments {arguments : List Value}
    (hf : m.calls.frames = frame :: callers) (h : takeArguments id m = .ok arguments m') :
    m'.heap = m.heap ∧ m'.calls.frames =
      { frame with stack := frame.stack.drop (m.catalog.method id).argumentCount } :: callers := by
  rcases takeArguments_cases id hf with ⟨fault, ht⟩ | ⟨-, taken, ht⟩
  · rw [ht] at h
    cases h
  · rw [ht] at h
    cases h
    exact ⟨rfl, CallStack.frames_modifyTop hf⟩

/-- A value slipped beneath the arguments is taken with them exactly if the method has a receiver.
-/
theorem drop_inserted {stack : List Value} {method : Method} (v : Value)
    (hd : method.arity ≤ stack.length) :
    (stack.take method.arity ++ v :: stack.drop method.arity).drop method.argumentCount =
      (if method.isStatic then [v] else []) ++ stack.drop method.arity := by
  have hl : (stack.take method.arity).length = method.arity := by
    rw [List.length_take, Nat.min_eq_left hd]
  unfold Method.argumentCount
  cases method.isStatic with
  | true => simp [List.drop_left' hl]
  | false => simp [List.drop_append, hl]

/-- What a construction leaves of the running frame when its constructor is called. The new object
is taken with the arguments exactly if the constructor has a receiver. -/
theorem construct_eq_ok {flow : Flow} (hr : m.catalog.resolveMethod ref = .ok id)
    (hf : m.calls.frames = frame :: callers) (h : construct ref m = .ok flow m') :
    let method := m.catalog.method id
    let object : Object := ⟨method.declaringType, initialSlots m method.declaringType⟩
    let created := Value.ref (m.heap.add object).1
    m.heap.isFull = false ∧ m'.heap = (m.heap.add object).2 ∧
      method.arity ≤ frame.stack.length ∧
      (∃ arguments, flow = .call id arguments (some created)) ∧
      m'.calls.frames =
        { frame with
          stack := (if method.isStatic then [created] else []) ++
            frame.stack.drop method.arity } ::
        callers := by
  obtain ⟨target, m₁, htarget, hresolved⟩ := sequence_eq_ok_iff.mp h
  obtain ⟨htarget, rfl⟩ := query_eq_ok_iff.mp htarget
  rw [hr] at htarget
  cases htarget
  obtain ⟨method, m₂, hmethod, hlooked⟩ := sequence_eq_ok_iff.mp hresolved
  obtain ⟨hmethod, rfl⟩ := query_eq_ok_iff.mp hmethod
  cases hmethod
  obtain ⟨handle, made, hmade, hobject⟩ := sequence_eq_ok_iff.mp hlooked
  obtain ⟨_, inserted, hinserted, hbeneath⟩ := sequence_eq_ok_iff.mp hobject
  obtain ⟨taken, m₃, htaken, hflow⟩ := sequence_eq_ok_iff.mp hbeneath
  cases hflow
  have hroom := isFull_of_store hmade
  obtain ⟨rfl, hstored⟩ := store_eq_ok hmade
  have hbefore : made.calls.frames = frame :: callers := by rw [hstored, hf]
  obtain ⟨hdepth, hframes⟩ := frames_of_insertBeneath hbefore hinserted
  obtain ⟨_, _, _, hheap, hcatalog, _⟩ := insertBeneath_eq_ok hinserted
  subst hstored
  obtain ⟨hkept, hleft⟩ := frames_of_takeArguments hframes htaken
  rw [hcatalog] at hleft
  refine ⟨hroom, hkept.trans hheap, hdepth, ⟨taken, rfl⟩, ?_⟩
  rw [hleft]
  simp only [drop_inserted _ hdepth]

end Exec

namespace Machine

/-- What a construction leaves that has completed: a new object of the declaring type, and one
reference to it in place of the arguments, or two if the constructor has no receiver. -/
structure Constructed (m : Machine) (method : Method) (frame : Frame) (callers : List Frame)
    (handle : Handle) (m' : Machine) : Prop where
  fresh : ¬ m.heap.Live handle
  object : ∃ object, m'.heap.get? handle = some object ∧ object.type = method.declaringType
  taken : method.arity ≤ frame.stack.length
  frames : m'.calls.frames =
    { frame with
      stack := .ref handle :: (if method.isStatic then [.ref handle] else []) ++
        frame.stack.drop method.arity } ::
    callers

/-- A construction that completes has made an object and run the constructor on it. -/
theorem constructed_of_completes {inst : Instruction} {ref : MethodRef} {m m' : Machine}
    {frame : Frame} {callers : List Frame} {id callee : MethodId} (ht : inst.task = .construct ref)
    (hr : m.catalog.resolveMethod ref = .ok id)
    (hk : (m.catalog.method id).returnsValue = false) (hf : m.calls.frames = frame :: callers)
    (hw : m.heap.WellFormed) (hc : m.heap.capacity ≤ 2 ^ 32) (h : Completes inst m callee m') :
    callee = id ∧ ∃ handle, Constructed m (m.catalog.method id) frame callers handle m' := by
  obtain @⟨m₁, m₂, _, arguments, result, created, called, ended, pushed⟩ := h
  have hconstruct : Exec.construct ref m = .ok (.call callee arguments created) m₁ := by
    rw [Exec.step, ht] at called
    exact called
  obtain ⟨hroom, hheap, hdepth, ⟨_, hflow⟩, hframes⟩ := Exec.construct_eq_ok hr hf hconstruct
  cases hflow
  have hcatalog : m₁.catalog = m.catalog := (sameCallers_step called).catalog
  obtain ⟨hresult, hleft⟩ := frames_of_ended hframes ended pushed
  rw [hcatalog, hk, Option.isSome_eq_false_iff, Option.isNone_iff_eq_none] at hresult
  subst hresult
  have hstored := Heap.get?_add hw hc hroom ⟨(m.catalog.method id).declaringType,
    Exec.initialSlots m (m.catalog.method id).declaringType⟩
  have hleads : m₁.Leads m' :=
    ended.leads.trans ((Exec.changes_pushResults none _).leads pushed)
  have hw₁ : m₁.heap.WellFormed := by
    rw [hheap]
    exact hw.add hroom _
  obtain ⟨object, hobject, hkept⟩ := (hleads.preserves hw₁).objects _ _
    (by rw [hheap, hstored, if_pos rfl])
  exact ⟨rfl, _, Heap.not_live_add hw hc hroom _, ⟨object, hobject, hkept.type⟩, hdepth, hleft⟩

end Machine

open Machine in
/-- A reference to a constructor of a declared type leads to the first entry that the module lists
among the constructors of the type with these parameter types, whatever the entry is called and
whether or not it has a receiver. A construction through it that completes replaces the arguments by
a reference to a new object of the type. It leaves exactly one if the entry has a receiver; if it
has none, as a static initializer, a second one stays beneath. -/
theorem constructor_of_first_entry {before : Machine} (hl : before.catalog.Loaded)
    {source : ModuleSource} {assembly : AssemblyId} {loaded : Machine}
    (hload : before.loadModule source = .ok assembly loaded) {type : TypeDeclaration} {id : TypeId}
    (ht : (type, id) ∈ before.catalog.numbered source) {m : Machine}
    (he : loaded.catalog.Extends m.catalog) (hw : m.heap.WellFormed)
    (hc : m.heap.capacity ≤ 2 ^ 32) {ref : MethodRef} (hn : ref.name = MethodRef.constructorName)
    (hr : m.catalog.resolveType ref.declaringType = .ok id) {own : List MethodDeclaration}
    (hown : source.constructors type = .ok own) {declared : MethodDeclaration}
    (hd : declared ∈ own) (hp : declared.signature.parameters = ref.signature.parameters) :
    ∃ earlier chosen later method, own = earlier ++ chosen :: later ∧
      (∀ other ∈ earlier, other.signature.parameters ≠ ref.signature.parameters) ∧
      chosen.signature.parameters = ref.signature.parameters ∧
      m.catalog.resolveMethod ref = .ok method ∧
      m.catalog.method method = chosen.asConstructor id ∧
      ∀ inst callee frame callers m', inst.task = .construct ref →
        m.calls.frames = frame :: callers → Completes inst m callee m' →
        callee = method ∧
          ∃ handle, Constructed m (chosen.asConstructor id) frame callers handle m' := by
  have hadded : Load.addModule source before.catalog = .ok assembly loaded.catalog :=
    addModule_of_loadModule hload
  cases hfound : own.find? (fun d => d.signature.parameters == ref.signature.parameters) with
  | none =>
    have hnot := List.find?_eq_none.mp hfound declared hd
    exact absurd (beq_iff_eq.mpr hp) hnot
  | some chosen =>
    obtain ⟨hchosen, earlier, later, hsplit, hearlier⟩ := List.find?_eq_some_iff_append.mp hfound
    have hk : ref.isConstructor = true := by simp [MethodRef.isConstructor, hn]
    obtain ⟨method, hmethod, hdeclared⟩ :=
      Catalog.resolveMethod_declared hl.closed hadded ht he hk hr hown hfound
    refine ⟨earlier, chosen, later, method, hsplit, ?_, beq_iff_eq.mp hchosen, hmethod, hdeclared,
      ?_⟩
    · intro other hm hsame
      simpa [hsame] using hearlier other hm
    · intro inst callee frame callers m' htask hf hcompletes
      have hreturns : (m.catalog.method method).returnsValue = false := by
        rw [hdeclared]
        rfl
      rw [← hdeclared]
      exact constructed_of_completes htask hmethod hreturns hf hw hc hcompletes

/-- A module with two types that have a static initializer and a constructor, neither with
parameters. One type lists the initializer first, the other one the constructor. -/
def initialized : ModuleSource where
  assembly := "App"
  types := [⟨"", "Item", none⟩, ⟨"", "Part", none⟩]
  fields _ := .ok []
  constructors type :=
    let entry (name : String) (isStatic : Bool) : MethodDeclaration :=
      ⟨name, ⟨isStatic, [], .void⟩, false, false, ⟨#[⟨.ret, 0, none⟩]⟩⟩
    if type.name = "Item" then
      .ok [entry ".cctor" true, entry MethodRef.constructorName false]
    else
      .ok [entry MethodRef.constructorName false, entry ".cctor" true]
  methods _ := .ok []

/-- A machine that has loaded the module, on which a method without arguments runs. -/
def initializing : Machine :=
  let loaded := Outcome.machine ((Machine.new {} .empty).loadModule initialized)
  { loaded with calls := { loaded.calls with frames := [Frame.start none ⟨0⟩ [] 0] } }

/-- A reference to a constructor without parameters. -/
def parameterless (type : String) : MethodRef :=
  ⟨⟨"App", "", type⟩, MethodRef.constructorName, ⟨false, [], .void⟩⟩

/-- The construction of an object by a constructor without parameters. -/
def newItem (type : String) : Instruction := ⟨.newobj, 0, some (.method (parameterless type))⟩

/-- A type that lists its constructor first is constructed with one reference. -/
theorem constructor_of_first_entry_constructor :
    ∃ callee m' handle, Machine.Completes (newItem "Part") initializing callee m' ∧
      ¬ initializing.heap.Live handle ∧
      m'.calls.frames = [(Frame.start none ⟨0⟩ [] 0).push (.ref handle)] := by
  have hresult : Outcome.result? ((Machine.new {} .empty).loadModule initialized) =
      some ⟨1⟩ := by
    decide +kernel
  have hcompleted : (initializing.completed? 5 (newItem "Part")).isSome = true := by
    decide +kernel
  obtain ⟨⟨callee, m'⟩, hsome⟩ := Option.isSome_iff_exists.mp hcompleted
  have hcompletes := Machine.completes_of_completed? hsome
  obtain ⟨first, rest, hown, hfirst, hparameters⟩ :
      ∃ first rest, initialized.constructors ⟨"", "Part", none⟩ = .ok (first :: rest) ∧
        first.signature.isStatic = false ∧ first.signature.parameters = [] :=
    ⟨_, _, rfl, rfl, rfl⟩
  have hnumbered : (⟨"", "Part", none⟩, ⟨15⟩) ∈ Library.catalog.numbered initialized := by
    decide +kernel
  have hheap : initializing.heap = .empty 65536 := by
    rw [initializing, Machine.machine_loadModule]
    rfl
  have hw : initializing.heap.WellFormed := hheap ▸ Heap.wellFormed_empty 65536
  have hc : initializing.heap.capacity ≤ 2 ^ 32 := by
    rw [hheap]
    decide
  have htype : initializing.catalog.resolveType (parameterless "Part").declaringType =
      .ok ⟨15⟩ := by
    decide +kernel
  obtain ⟨earlier, chosen, later, method, hsplit, hearlier, -, -, -, hconstructs⟩ :=
    constructor_of_first_entry .library (Outcome.eq_ok_of_result? hresult) hnumbered
      (.refl initializing.catalog) hw hc rfl htype hown List.mem_cons_self hparameters
  obtain ⟨-, handle, hconstructed⟩ := hconstructs _ _ _ _ _ rfl rfl hcompletes
  have hchosen : first = chosen := by
    cases earlier with
    | nil => exact (List.cons.inj hsplit).1
    | cons other earlier =>
      obtain rfl := (List.cons.inj hsplit).1
      exact absurd hparameters (hearlier _ List.mem_cons_self)
  subst hchosen
  have hstatic : (first.asConstructor ⟨15⟩).isStatic = false := hfirst
  refine ⟨callee, m', handle, hcompletes, hconstructed.fresh, ?_⟩
  simpa [Frame.start, Frame.push, hstatic] using hconstructed.frames

/-- A type that lists a static initializer first is constructed with that, and two references are
left. -/
theorem initializer_constructs :
    let method := initializing.catalog.method ⟨32⟩
    (∃ own, initialized.constructors ⟨"", "Item", none⟩ = .ok own ∧ ∃ declared ∈ own,
      declared.name = MethodRef.constructorName ∧ declared.signature = ⟨false, [], .void⟩) ∧
      initializing.catalog.resolveMethod (parameterless "Item") = .ok ⟨32⟩ ∧
      method.isStatic = true ∧
      ∃ m' handle, Machine.Completes (newItem "Item") initializing ⟨32⟩ m' ∧
        m'.calls.frames =
          [((Frame.start none ⟨0⟩ [] 0).push (.ref handle)).push (.ref handle)] := by
  intro method
  have hcompleted : (initializing.completed? 5 (newItem "Item")).map (fun found =>
      (found.1, found.2.calls.frames)) = some (⟨32⟩,
        [((Frame.start none ⟨0⟩ [] 0).push (.ref ⟨0, 0⟩)).push (.ref ⟨0, 0⟩)]) := by
    decide +kernel
  obtain ⟨⟨callee, m'⟩, hsome, hfound⟩ := Option.map_eq_some_iff.mp hcompleted
  obtain ⟨rfl, hframes⟩ := Prod.mk.inj hfound
  exact ⟨⟨_, rfl, by decide⟩, by decide +kernel, by decide +kernel, m', ⟨0, 0⟩,
    Machine.completes_of_completed? hsome, hframes⟩

end ManagedCode
