import ManagedCode.Proofs.Catalog.Ancestry
import ManagedCode.Proofs.Execution.CallStack

/-!
# Virtual calls

The receiver of a virtual call decides which method runs: the first implementation on the nearest of
its types that has one, by name and number of parameters. The method that was named has the same
number of parameters, so where the other one is an instance method as well the call takes exactly
the values that one of the named method takes. A static method is found in the same way, but takes
no receiver, which then stays on the evaluation stack. What a call leaves is the result of the
method that ran, whose return type is its own.
-/

namespace ManagedCode

/-! ## The method that runs -/

namespace Catalog

/-- The method has the name and the number of parameters and is not abstract. -/
structure Implements (catalog : Catalog) (name : String) (arity : Nat) (id : MethodId) : Prop where
  name_eq : (catalog.method id).name = name
  arity_eq : (catalog.method id).arity = arity
  concrete : (catalog.method id).isAbstract = false

/-- A type has no implementation of its own. -/
def Lacks (catalog : Catalog) (name : String) (arity : Nat) (type : TypeId) : Prop :=
  ∀ id ∈ (catalog.type type).methods, ¬ catalog.Implements name arity id

/-- The method is the first implementation that a type has of its own. -/
def Supplies (catalog : Catalog) (name : String) (arity : Nat) (type : TypeId) (id : MethodId) :
    Prop :=
  catalog.Implements name arity id ∧ ∃ before after, (catalog.type type).methods =
    before ++ id :: after ∧ ∀ other ∈ before, ¬ catalog.Implements name arity other

/-- The method that a call of `id` runs for a receiver of the type: the implementation of the
nearest type that has one, from the type of the receiver through its base types, or `id` itself. -/
inductive Dispatches (catalog : Catalog) (id : MethodId) (type : TypeId) : MethodId → Prop
  | nearest {nearer farther : List TypeId} {supplier : TypeId} {target : MethodId}
      (chain : catalog.ancestry type = nearer ++ supplier :: farther)
      (skipped : ∀ t ∈ nearer, catalog.Lacks (catalog.method id).name (catalog.method id).arity t)
      (supplied : catalog.Supplies (catalog.method id).name (catalog.method id).arity supplier
        target) : Dispatches catalog id type target
  | itself (lacking : ∀ t ∈ catalog.ancestry type,
      catalog.Lacks (catalog.method id).name (catalog.method id).arity t) :
      Dispatches catalog id type id

variable {catalog : Catalog} {name : String} {arity : Nat} {type : TypeId} {id target : MethodId}

private theorem implements_iff :
    ((catalog.method id).name == name && (catalog.method id).arity == arity &&
      !(catalog.method id).isAbstract) = true ↔ catalog.Implements name arity id := by
  simp only [Bool.and_eq_true, beq_iff_eq, Bool.not_eq_true']
  exact ⟨fun h => ⟨h.1.1, h.1.2, h.2⟩, fun h => ⟨⟨h.name_eq, h.arity_eq⟩, h.concrete⟩⟩

/-- No method is found exactly if the type lacks one. -/
theorem implementation?_eq_none_iff :
    catalog.implementation? name arity type = none ↔ catalog.Lacks name arity type := by
  rw [implementation?, List.find?_eq_none]
  exact forall₂_congr fun id _ => not_congr implements_iff

/-- A method is found exactly if the type supplies it first. -/
theorem implementation?_eq_some_iff :
    catalog.implementation? name arity type = some id ↔ catalog.Supplies name arity type id := by
  rw [implementation?, List.find?_eq_some_iff_append, Supplies, implements_iff]
  refine and_congr_right fun _ => exists₂_congr fun before after => and_congr_right fun _ => ?_
  refine forall₂_congr fun other _ => ?_
  rw [← implements_iff, Bool.not_eq_true, Bool.not_eq_true']

/-- The override that is found, or else the method itself, is the one that runs. -/
theorem dispatches_findOverride? (catalog : Catalog) (id : MethodId) (type : TypeId) :
    catalog.Dispatches id type ((catalog.findOverride? type (catalog.method id).name
      (catalog.method id).arity).getD id) := by
  cases h : catalog.findOverride? type (catalog.method id).name (catalog.method id).arity with
  | none =>
    rw [findOverride?, List.findSome?_eq_none_iff] at h
    exact .itself fun t ht => implementation?_eq_none_iff.mp (h t ht)
  | some target =>
    rw [findOverride?, List.findSome?_eq_some_iff] at h
    obtain ⟨nearer, supplier, farther, hchain, hsupplied, hskipped⟩ := h
    exact .nearest hchain (fun t ht => implementation?_eq_none_iff.mp (hskipped t ht))
      (implementation?_eq_some_iff.mp hsupplied)

/-- The method that runs has as many parameters as the one that was called. -/
theorem Dispatches.arity_eq (h : catalog.Dispatches id type target) :
    (catalog.method target).arity = (catalog.method id).arity := by
  cases h with
  | nearest _ _ supplied => exact supplied.1.arity_eq
  | itself => rfl

end Catalog

/-! ## Calls that complete -/

namespace Exec

private theorem frames_of_push {value : Value} {m m' : Machine} {frame : Frame}
    {callers : List Frame} (h : push value m = .ok () m')
    (hf : m.calls.frames = frame :: callers) :
    m'.calls.frames = frame.push value :: callers := by
  have ht : m.calls.top? = some frame := by rw [CallStack.top?, hf, List.head?_cons]
  simp only [push, ht] at h
  cases h
  exact CallStack.frames_modifyTop hf

/-- The values that a call leaves come on top of the evaluation stack. -/
theorem frames_of_pushResults {result created : Option Value} {m m' : Machine} {frame : Frame}
    {callers : List Frame} (h : pushResults result created m = .ok () m')
    (hf : m.calls.frames = frame :: callers) :
    m'.calls.frames =
      { frame with stack := created.toList ++ result.toList ++ frame.stack } :: callers := by
  have hall (value : Option Value) {m m' : Machine} {frame : Frame}
      (h : value.forM push m = .ok () m') (hf : m.calls.frames = frame :: callers) :
      m'.calls.frames = { frame with stack := value.toList ++ frame.stack } :: callers := by
    cases value with
    | none =>
      cases h
      exact hf
    | some v => exact frames_of_push h hf
  obtain ⟨_, m₁, hresult, hcreated⟩ := sequence_eq_ok_iff.mp h
  rw [hall created hcreated (hall result hresult hf), List.append_assoc]

end Exec

namespace Machine

/-- The running method comes to an instruction that calls the method, the call ends with a result,
and what it leaves is pushed. -/
inductive Completes (inst : Instruction) (m : Machine) (id : MethodId) : Machine → Prop
  | intro {m₁ m₂ m' : Machine} {arguments : List Value} {result created : Option Value}
      (called : Exec.step inst m = .ok (.call id arguments created) m₁)
      (ended : Ends (.call id arguments) m₁ (.ok result m₂))
      (pushed : Exec.pushResults result created m₂ = .ok () m') : Completes inst m id m'

variable {inst : Instruction} {m m' : Machine} {id : MethodId} {frame : Frame}
  {callers : List Frame}

/-- The method that an instruction calls and the machine on which the call has completed, if there
is fuel for it. -/
def completed? (fuel : Nat) (inst : Instruction) (m : Machine) : Option (MethodId × Machine) :=
  match Exec.step inst m with
  | .ok (.call id arguments created) m₁ =>
    match m₁.call fuel id arguments with
    | some (.ok result m₂) =>
      match Exec.pushResults result created m₂ with
      | .ok _ m' => some (id, m')
      | .error _ _ => none
    | _ => none
  | _ => none

/-- A completion that was computed is one. -/
theorem completes_of_completed? {fuel : Nat} (h : m.completed? fuel inst = some (id, m')) :
    Completes inst m id m' := by
  unfold completed? at h
  split at h
  · rename_i called
    split at h
    · rename_i ended
      split at h
      · rename_i pushed
        cases h
        exact .intro called (ends_of_call ended) pushed
      · cases h
    · cases h
  · cases h

/-- A call that completes leaves what its callee returns on the evaluation stack that the
instruction left, and no other frame is changed. -/
theorem frames_of_ended {m₁ m₂ : Machine} {arguments : List Value} {result created : Option Value}
    (hf : m₁.calls.frames = frame :: callers)
    (he : Ends (.call id arguments) m₁ (.ok result m₂))
    (hp : Exec.pushResults result created m₂ = .ok () m') :
    result.isSome = (m₁.catalog.method id).returnsValue ∧ m'.calls.frames =
      { frame with stack := created.toList ++ result.toList ++ frame.stack } :: callers := by
  have hframes : m₂.calls.frames = m₁.calls.frames := he.keeps.frames
  exact ⟨isSome_of_ends he, Exec.frames_of_pushResults hp (hframes.trans hf)⟩

end Machine

namespace Exec

/-- A virtual call of an overridable instance method hands over to the method that runs for the
receiver. -/
theorem step_callVirtual {inst : Instruction} {ref : MethodRef} {m : Machine} {frame : Frame}
    {callers : List Frame} {id : MethodId} {handle : Handle} {object : Object}
    (ht : inst.task = .callVirtual ref) (hr : m.catalog.resolveMethod ref = .ok id)
    (hi : (m.catalog.method id).isStatic = false) (ho : (m.catalog.method id).isOverridable = true)
    (hf : m.calls.frames = frame :: callers)
    (hv : frame.peek? (m.catalog.method id).arity = some (.ref handle))
    (hg : m.heap.get? handle = some object) :
    ∃ target, m.catalog.Dispatches id object.type target ∧
      step inst m = (do return Flow.call target (← takeArguments target) none : Exec Flow) m := by
  refine ⟨_, m.catalog.dispatches_findOverride? id object.type, ?_⟩
  have htop : m.calls.top? = some frame := by rw [CallStack.top?, hf, List.head?_cons]
  have hnamed : resolveMethod ref m = .ok id m := by
    rw [resolveMethod, query_apply, hr]
    rfl
  have htarget : virtualTarget id m = .ok ((m.catalog.findOverride? object.type
      (m.catalog.method id).name (m.catalog.method id).arity).getD id) m := by
    have hobject := Machine.object_of_get? hg
    rw [virtualTarget, query_apply]
    simp [hi, ho, htop, hv, hobject, bind, Except.bind, pure, Except.pure]
  rw [step, ht]
  exact (bind_of_ok _ hnamed).trans (bind_of_ok _ htarget)

end Exec

namespace Exec

/-- Beneath the arguments of an instance method stands the receiver; a static method leaves it. -/
theorem drop_argumentCount {frame : Frame} {method : Method} {receiver : Value}
    (hv : frame.peek? method.arity = some receiver) :
    frame.stack.drop method.argumentCount =
      (if method.isStatic then [receiver] else []) ++ frame.stack.drop (method.arity + 1) := by
  unfold Method.argumentCount
  cases method.isStatic with
  | true =>
    obtain ⟨hlt, hreceiver⟩ := List.getElem?_eq_some_iff.mp hv
    simp [List.drop_eq_getElem_cons hlt, hreceiver]
  | false => simp

/-- There are enough values for a method beneath whose arguments a receiver stands. -/
theorem argumentCount_le {frame : Frame} {method : Method} {receiver : Value}
    (hv : frame.peek? method.arity = some receiver) :
    method.argumentCount ≤ frame.stack.length := by
  obtain ⟨hlt, -⟩ := List.getElem?_eq_some_iff.mp hv
  unfold Method.argumentCount
  split <;> omega

end Exec

open Machine in
/-- What a virtual call through an overridable instance method and a live receiver comes to. The
implementation of the nearest type that has one is called. If that is an instance method, a call
that completes has taken the receiver and as many values as the named method has parameters. If it
is static, the receiver has stayed. Either way one value was left exactly if the method that ran
returns one, whatever the named one does. -/
theorem virtual_call_shape {inst : Instruction} {ref : MethodRef} {m : Machine} {frame : Frame}
    {callers : List Frame} {id : MethodId} {handle : Handle} {object : Object}
    (ht : inst.task = .callVirtual ref) (hr : m.catalog.resolveMethod ref = .ok id)
    (hi : (m.catalog.method id).isStatic = false) (ho : (m.catalog.method id).isOverridable = true)
    (hf : m.calls.frames = frame :: callers)
    (hv : frame.peek? (m.catalog.method id).arity = some (.ref handle))
    (hg : m.heap.get? handle = some object) :
    ∃ target, m.catalog.Dispatches id object.type target ∧
      (∃ arguments m₁, Exec.step inst m = .ok (.call target arguments none) m₁) ∧
      ∀ callee m', Completes inst m callee m' → callee = target ∧ ∃ returned : List Value,
        returned.length = (if (m.catalog.method target).returnsValue then 1 else 0) ∧
        m'.calls.frames =
          { frame with
            stack := returned ++
              (if (m.catalog.method target).isStatic then [.ref handle] else []) ++
              frame.stack.drop ((m.catalog.method id).arity + 1) } ::
          callers := by
  obtain ⟨target, hdispatched, hstep⟩ := Exec.step_callVirtual ht hr hi ho hf hv hg
  -- An override has the arity of the method, so the receiver lies beneath its arguments.
  rw [← hdispatched.arity_eq] at hv ⊢
  obtain ⟨arguments, htaken⟩ := takeArguments_of_le hf (Exec.argumentCount_le hv)
  have hcalled := hstep.trans (Exec.bind_of_ok _ htaken)
  refine ⟨target, hdispatched, ⟨arguments, _, hcalled⟩, fun callee m' hc => ?_⟩
  obtain @⟨m₁, m₂, _, _, result, created, called, ended, pushed⟩ := hc
  rw [hcalled] at called
  cases called
  obtain ⟨hresult, hframes⟩ := frames_of_ended (CallStack.frames_modifyTop hf) ended pushed
  have hreturns : (m.catalog.method target).returnsValue = result.isSome := hresult.symm
  refine ⟨rfl, result.toList, ?_, ?_⟩
  · rw [hreturns]
    cases result with
    | none => rfl
    | some value => rfl
  · rw [hframes, Exec.drop_argumentCount hv]
    simp only [Option.toList_none, List.nil_append, List.append_assoc]

/-- A module with three overridable methods, and a type derived from theirs that has methods of the
same names. One of these is like the method of the base type, one returns a number where that
returns nothing, and one is static. -/
def overriding : ModuleSource where
  assembly := "App"
  types := [⟨"", "Shape", none⟩, ⟨"", "Square", some ⟨"App", "", "Shape"⟩⟩]
  fields _ := .ok []
  constructors _ := .ok []
  methods type :=
    let gives (number : Opcode) : Body := ⟨#[⟨number, 0, none⟩, ⟨.ret, 1, none⟩]⟩
    if type.name = "Shape" then
      .ok [⟨"Sides", ⟨false, [], .system "Int32"⟩, false, true, gives .ldcI40⟩,
        ⟨"Draw", ⟨false, [], .void⟩, false, true, ⟨#[⟨.ret, 0, none⟩]⟩⟩,
        ⟨"Corners", ⟨false, [], .system "Int32"⟩, false, true, gives .ldcI40⟩]
    else
      .ok [⟨"Sides", ⟨false, [], .system "Int32"⟩, false, false, gives .ldcI45⟩,
        ⟨"Draw", ⟨false, [], .system "Int32"⟩, false, false, gives .ldcI45⟩,
        ⟨"Corners", ⟨true, [], .system "Int32"⟩, false, false, gives .ldcI45⟩]

/-- A machine on which a method runs that has pushed an object of the derived type. -/
def squarePushed : Machine :=
  let loaded := Outcome.machine ((Machine.new {} .empty).loadModule overriding)
  let made := Outcome.machine (Exec.instantiate ⟨15⟩ loaded)
  let frame := Frame.start none ⟨0⟩ [] 0
  { made with calls := { made.calls with frames := [frame.push (.ref ⟨0, 0⟩)] } }

/-- A reference to a method of the base type without parameters. -/
def shapeMethod (name : String) (returnType : TypeRef) : MethodRef :=
  ⟨⟨"App", "", "Shape"⟩, name, ⟨false, [], returnType⟩⟩

/-- A virtual call without parameters. -/
def callShape (name : String) (returnType : TypeRef) : Instruction :=
  ⟨.callvirt, 0, some (.method (shapeMethod name returnType))⟩

/-- The method of the derived type runs, and its one result replaces the receiver. -/
theorem virtual_call_shape_overridden :
    squarePushed.catalog.Dispatches ⟨32⟩ ⟨15⟩ ⟨35⟩ ∧
      ∃ m' value, Machine.Completes (callShape "Sides" (.system "Int32")) squarePushed ⟨35⟩ m' ∧
        m'.calls.frames = [(Frame.start none ⟨0⟩ [] 0).push value] := by
  have hcompleted : (squarePushed.completed? 5 (callShape "Sides" (.system "Int32"))).map
      (·.1) = some ⟨35⟩ := by
    decide +kernel
  obtain ⟨⟨callee, m'⟩, hsome, hcallee⟩ := Option.map_eq_some_iff.mp hcompleted
  cases hcallee
  have hcompletes := Machine.completes_of_completed? hsome
  have hg : squarePushed.heap.get? ⟨0, 0⟩ = some ⟨⟨15⟩, []⟩ := by decide +kernel
  have htask : (callShape "Sides" (.system "Int32")).task =
      .callVirtual (shapeMethod "Sides" (.system "Int32")) := rfl
  have hnamed : squarePushed.catalog.resolveMethod (shapeMethod "Sides" (.system "Int32")) =
      .ok ⟨32⟩ := by
    decide +kernel
  obtain ⟨target, hdispatched, -, hshape⟩ := virtual_call_shape htask hnamed
    (by decide +kernel) (by decide +kernel) rfl (by decide +kernel) hg
  obtain ⟨rfl, returned, hlength, hframes⟩ := hshape _ m' hcompletes
  have hreturns : (squarePushed.catalog.method ⟨35⟩).returnsValue = true := by decide +kernel
  have hinstance : (squarePushed.catalog.method ⟨35⟩).isStatic = false := by decide +kernel
  have harity : (squarePushed.catalog.method ⟨32⟩).arity = 0 := by decide +kernel
  rw [hreturns, if_pos rfl] at hlength
  rw [harity, hinstance] at hframes
  obtain ⟨value, rfl⟩ := List.length_eq_one_iff.mp hlength
  exact ⟨hdispatched, m', value, hcompletes, hframes⟩

/-- A static method of the derived type is called in place of an instance method, and the receiver
stays beneath its result. A method that returns a number is called in place of one that returns
nothing, and the number is left. -/
theorem override_changes_shape :
    (squarePushed.catalog.resolveMethod (shapeMethod "Corners" (.system "Int32")) = .ok ⟨34⟩ ∧
      (squarePushed.catalog.method ⟨34⟩).isStatic = false ∧
      (squarePushed.catalog.method ⟨34⟩).isOverridable = true ∧
      (squarePushed.catalog.method ⟨37⟩).isStatic = true ∧
      ∃ m', Machine.Completes (callShape "Corners" (.system "Int32")) squarePushed ⟨37⟩ m' ∧
        m'.calls.frames =
          [((Frame.start none ⟨0⟩ [] 0).push (.ref ⟨0, 0⟩)).push (.int32 5)]) ∧
      squarePushed.catalog.resolveMethod (shapeMethod "Draw" .void) = .ok ⟨33⟩ ∧
      (squarePushed.catalog.method ⟨33⟩).isOverridable = true ∧
      (squarePushed.catalog.method ⟨33⟩).returnsValue = false ∧
      ∃ m', Machine.Completes (callShape "Draw" .void) squarePushed ⟨36⟩ m' ∧
        m'.calls.frames = [(Frame.start none ⟨0⟩ [] 0).push (.int32 5)] := by
  have hcompletes (inst : Instruction) (id : MethodId) (frames : List Frame)
      (h : (squarePushed.completed? 5 inst).map (fun found => (found.1, found.2.calls.frames)) =
        some (id, frames)) :
      ∃ m', Machine.Completes inst squarePushed id m' ∧ m'.calls.frames = frames := by
    obtain ⟨⟨callee, m'⟩, hsome, hfound⟩ := Option.map_eq_some_iff.mp h
    obtain ⟨rfl, hframes⟩ := Prod.mk.inj hfound
    exact ⟨m', Machine.completes_of_completed? hsome, hframes⟩
  refine ⟨⟨by decide +kernel, by decide +kernel, by decide +kernel, by decide +kernel, ?_⟩,
    by decide +kernel, by decide +kernel, by decide +kernel, ?_⟩
  · exact hcompletes _ _ _ (by decide +kernel)
  · exact hcompletes _ _ _ (by decide +kernel)

end ManagedCode
