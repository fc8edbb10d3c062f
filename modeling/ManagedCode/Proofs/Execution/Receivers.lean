import ManagedCode.Proofs.Execution.Changes

/-!
# The receiver of a call

An instance call takes its receiver and its parameters from the evaluation stack, or for a
construction puts the new object beneath the parameters and takes it with them. When arguments keep
the order of pushing, the frame of the callee starts with the receiver and then the parameters.
When the order is guessed, it does so too, except where the last argument is itself an instance of
exactly the declaring type: it is then taken for the receiver, and the whole list is reversed.
-/

namespace ManagedCode

namespace Machine

/-- The value refers to an object of exactly the type. -/
def IsInstance (m : Machine) (type : TypeId) : Value → Prop
  | .ref handle => ∃ object, m.heap.get? handle = some object ∧ object.type = type
  | _ => False

/-- The order is guessed, and the last parameter is what the receiver is taken to be. -/
def Misguesses (m : Machine) (declaring : TypeId) (parameters : List Value) : Prop :=
  m.options.argumentOrder = .guessed ∧
    ∃ last, parameters.getLast? = some last ∧ m.IsInstance declaring last

/-- An instance of the declaring type that was pushed last is taken for the receiver. -/
theorem orderArguments_of_isInstance {m : Machine} {declaring : TypeId} {last : Value}
    (h : m.IsInstance declaring last) (others : List Value) :
    m.orderArguments declaring (last :: others) = last :: others := by
  cases last with
  | ref handle =>
    obtain ⟨object, ho, ht⟩ := h
    simp [orderArguments, ho, ht]
  | null => cases h
  | int32 v => cases h
  | int64 v => cases h
  | float64 v => cases h

/-- Otherwise the arguments are put into the order of pushing. -/
theorem orderArguments_of_not_isInstance {m : Machine} {declaring : TypeId} {last : Value}
    (h : ¬ m.IsInstance declaring last) (others : List Value) :
    m.orderArguments declaring (last :: others) = (last :: others).reverse := by
  cases last with
  | ref handle =>
    cases hg : m.heap.get? handle with
    | none => simp [orderArguments, hg]
    | some object =>
      have ht : object.type ≠ declaring := fun ht => h ⟨object, hg, ht⟩
      simp [orderArguments, hg, ht]
  | null => rfl
  | int32 v => rfl
  | int64 v => rfl
  | float64 v => rfl

end Machine

namespace Exec

open Machine

/-- What is taken from the evaluation stack and left on it. -/
theorem takeTop_eq_ok {count : Nat} {m m' : Machine} {taken : List Value}
    (hc : 0 < count) (h : takeTop count m = .ok taken m') :
    ∃ frame rest, m.calls.top? = some frame ∧ frame.stack = taken ++ rest ∧
      taken.length = count ∧ m'.heap = m.heap := by
  unfold takeTop at h
  split at h
  · split at h
    · omega
    · cases h
  · rename_i frame ht
    split at h
    · cases h
    · rename_i hlength
      cases h
      refine ⟨frame, frame.stack.drop count, ht, ?_, ?_, rfl⟩
      · rw [List.take_append_drop]
      · rw [List.length_take]
        omega

/-- The arguments of an instance method come in the order of pushing unless it is misguessed. -/
theorem ordered_of_taken {m : Machine} {declaring : TypeId} {receiver : Value}
    {parameters arguments : List Value}
    (h : (if m.options.argumentOrder = .pushed ∨ (parameters.reverse ++ [receiver]).length ≤ 1 then
        (parameters.reverse ++ [receiver]).reverse
      else m.orderArguments declaring (parameters.reverse ++ [receiver])) = arguments) :
    (¬ m.Misguesses declaring parameters → arguments = receiver :: parameters) ∧
      (m.Misguesses declaring parameters → arguments = (receiver :: parameters).reverse) := by
  have hpushed : (parameters.reverse ++ [receiver]).reverse = receiver :: parameters := by simp
  by_cases hp : m.options.argumentOrder = .pushed
  · rw [if_pos (Or.inl hp), hpushed] at h
    refine ⟨fun _ => h.symm, fun hmis => ?_⟩
    rw [hmis.1] at hp
    cases hp
  · have hguessed : m.options.argumentOrder = .guessed := by
      cases horder : m.options.argumentOrder with
      | guessed => rfl
      | pushed => exact absurd horder hp
    rcases List.eq_nil_or_concat' parameters with rfl | ⟨others, last, rfl⟩
    · have hone : arguments = [receiver] := by simpa using h.symm
      exact ⟨fun _ => hone, fun _ => hone⟩
    · have hlast : (others ++ [last]).getLast? = some last := List.getLast?_concat
      have hlength : ¬ ((others ++ [last]).reverse ++ [receiver]).length ≤ 1 := by simp
      have htaken : (others ++ [last]).reverse ++ [receiver] =
          last :: (others.reverse ++ [receiver]) := by
        simp
      rw [if_neg (not_or.mpr ⟨hp, hlength⟩), htaken] at h
      constructor
      · intro hmis
        have hnot : ¬ m.IsInstance declaring last := fun hi => hmis ⟨hguessed, last, hlast, hi⟩
        rw [← h, orderArguments_of_not_isInstance hnot]
        simp
      · rintro ⟨-, found, hfound, hi⟩
        rw [hlast] at hfound
        cases hfound
        rw [← h, orderArguments_of_isInstance hi]
        simp

/-- The arguments that an instance method gets. -/
theorem takeArguments_eq_ok {id : MethodId} {m m' : Machine} {arguments : List Value}
    (hi : (m.catalog.method id).isStatic = false) (h : takeArguments id m = .ok arguments m') :
    ∃ frame receiver parameters rest, m.calls.top? = some frame ∧
      frame.stack = parameters.reverse ++ receiver :: rest ∧
      parameters.length = (m.catalog.method id).arity ∧ m'.heap = m.heap ∧
      (¬ m'.Misguesses (m.catalog.method id).declaringType parameters →
        arguments = receiver :: parameters) ∧
      (m'.Misguesses (m.catalog.method id).declaringType parameters →
        arguments = (receiver :: parameters).reverse) := by
  obtain ⟨method, m₁, hmethod, h⟩ := sequence_eq_ok_iff.mp h
  obtain ⟨hmethod, rfl⟩ := query_eq_ok_iff.mp hmethod
  cases hmethod
  obtain ⟨taken, m₂, htaken, h⟩ := sequence_eq_ok_iff.mp h
  obtain ⟨horder, rfl⟩ := query_eq_ok_iff.mp h
  have hcount : (m₁.catalog.method id).argumentCount = (m₁.catalog.method id).arity + 1 := by
    simp [Method.argumentCount, hi]
  obtain ⟨frame, rest, ht, hstack, hlength, hheap⟩ := takeTop_eq_ok (by omega) htaken
  rw [hcount] at hlength
  -- The receiver was pushed first, so it is the last value that is taken.
  obtain ⟨receiver, parameters, hpushed⟩ : ∃ receiver parameters,
      taken.reverse = receiver :: parameters := by
    apply List.exists_cons_of_length_pos
    rw [List.length_reverse]
    omega
  obtain rfl : taken = parameters.reverse ++ [receiver] := by
    rw [← List.reverse_cons, ← hpushed, List.reverse_reverse]
  have hparameters : parameters.length = (m₁.catalog.method id).arity := by
    simpa using hlength
  rw [List.append_assoc, List.singleton_append] at hstack
  have hordered : (if m'.options.argumentOrder = .pushed ∨
        (parameters.reverse ++ [receiver]).length ≤ 1 then
      (parameters.reverse ++ [receiver]).reverse
    else m'.orderArguments (m₁.catalog.method id).declaringType
      (parameters.reverse ++ [receiver])) = arguments := by
    simp only [hi, Bool.false_eq_true, false_or] at horder
    split at horder
    · rename_i hc
      rw [if_pos hc]
      exact Except.ok.inj horder
    · rename_i hc
      rw [if_neg hc]
      exact Except.ok.inj horder
  exact ⟨frame, receiver, parameters, rest, ht, hstack, hparameters, hheap,
    ordered_of_taken hordered⟩

/-- Where a step that makes an instance call found the receiver and the parameters. A construction
makes the receiver; any other call finds it on the evaluation stack, beneath the parameters. -/
def Supplies (m m' : Machine) (declaring : TypeId) (frame : Frame) (receiver : Value)
    (parameters : List Value) : Option Value → Prop
  | none => m'.heap = m.heap ∧ ∃ rest, frame.stack = parameters.reverse ++ receiver :: rest
  | some created =>
    let object : Object := ⟨declaring, initialSlots m declaring⟩
    created = receiver ∧ receiver = .ref (m.heap.add object).1 ∧
      m'.heap = (m.heap.add object).2 ∧ ∃ rest, frame.stack = parameters.reverse ++ rest

/-- The arguments of an instance call: the receiver and the parameters in the order of pushing, or
all of them reversed where the order is misguessed. -/
def Delivers (m m' : Machine) (method : Method) (arguments : List Value) (created : Option Value) :
    Prop :=
  ∃ frame receiver parameters, m.calls.top? = some frame ∧ parameters.length = method.arity ∧
    Supplies m m' method.declaringType frame receiver parameters created ∧
    (¬ m'.Misguesses method.declaringType parameters → arguments = receiver :: parameters) ∧
    (m'.Misguesses method.declaringType parameters →
      arguments = (receiver :: parameters).reverse)

/-- A call of an instance method delivers the arguments that were taken. -/
theorem delivers_handOn {target id : MethodId} {m m' : Machine} {arguments : List Value}
    {created : Option Value}
    (h : (do return Flow.call target (← takeArguments target) none : Exec Flow) m =
      .ok (.call id arguments created) m')
    (hi : (m.catalog.method id).isStatic = false) :
    Delivers m m' (m.catalog.method id) arguments created := by
  obtain ⟨taken, m₁, htaken, hflow⟩ := sequence_eq_ok_iff.mp h
  cases hflow
  obtain ⟨frame, receiver, parameters, rest, ht, hstack, hlength, hheap, hordered⟩ :=
    takeArguments_eq_ok hi htaken
  exact ⟨frame, receiver, parameters, ht, hlength, ⟨hheap, rest, hstack⟩, hordered⟩

/-- An object that is stored is added to the heap. -/
theorem store_eq_ok {object : Object} {m m' : Machine} {handle : Handle}
    (h : store object m = .ok handle m') :
    handle = (m.heap.add object).1 ∧ m' = { m with heap := (m.heap.add object).2 } := by
  unfold store at h
  split at h
  · cases h
  · cases h
    exact ⟨rfl, rfl⟩

/-- What an object is put beneath is what was on top before. -/
theorem insertBeneath_eq_ok {depth : Nat} {v : Value} {method : String} {m m' : Machine}
    (h : insertBeneath depth v method m = .ok () m') :
    ∃ frame, m.calls.top? = some frame ∧ depth ≤ frame.stack.length ∧ m'.heap = m.heap ∧
      m'.catalog = m.catalog ∧ m'.calls.top? = some { frame with
        stack := frame.stack.take depth ++ v :: frame.stack.drop depth } := by
  unfold insertBeneath at h
  split at h
  · cases h
  · rename_i frame ht
    split at h
    · cases h
    · rename_i hlength
      cases h
      refine ⟨frame, ht, Nat.le_of_not_lt hlength, rfl, rfl, ?_⟩
      unfold CallStack.top? at ht ⊢
      obtain ⟨callers, hframes⟩ := List.head?_eq_some_iff.mp ht
      rw [CallStack.frames_modifyTop hframes, List.head?_cons]

/-- A constructor gets the new object as its receiver. -/
theorem delivers_construct {ref : MethodRef} {id : MethodId} {m m' : Machine}
    {arguments : List Value} {created : Option Value}
    (h : construct ref m = .ok (.call id arguments created) m')
    (hi : (m.catalog.method id).isStatic = false) :
    Delivers m m' (m.catalog.method id) arguments created := by
  obtain ⟨target, m₁, htarget, hresolved⟩ := sequence_eq_ok_iff.mp h
  obtain ⟨-, rfl⟩ := query_eq_ok_iff.mp htarget
  obtain ⟨method, m₂, hmethod, hlooked⟩ := sequence_eq_ok_iff.mp hresolved
  obtain ⟨hmethod, rfl⟩ := query_eq_ok_iff.mp hmethod
  cases hmethod
  obtain ⟨handle, made, hmade, hobject⟩ := sequence_eq_ok_iff.mp hlooked
  obtain ⟨_, inserted, hinserted, hbeneath⟩ := sequence_eq_ok_iff.mp hobject
  obtain ⟨taken, m₃, htaken, hflow⟩ := sequence_eq_ok_iff.mp hbeneath
  cases hflow
  obtain ⟨rfl, rfl⟩ := store_eq_ok hmade
  obtain ⟨frame, ht, hdepth, hheap, hcatalog, htop⟩ := insertBeneath_eq_ok hinserted
  have hmethod : inserted.catalog.method id = m₂.catalog.method id := by rw [hcatalog]
  rw [← hmethod] at hi
  obtain ⟨frame', receiver, parameters, rest, ht', hstack, hlength, hheap', hordered⟩ :=
    takeArguments_eq_ok hi htaken
  rw [hmethod] at hlength hordered
  rw [htop] at ht'
  cases ht'
  have hcount : (frame.stack.take (m₂.catalog.method id).arity).length =
      parameters.reverse.length := by
    rw [List.length_take, List.length_reverse, hlength]
    omega
  obtain ⟨htake, hrest⟩ := List.append_inj hstack hcount
  cases hrest
  refine ⟨frame, _, parameters, ht, hlength, ?_, hordered⟩
  refine ⟨rfl, rfl, hheap'.trans hheap, frame.stack.drop (m₂.catalog.method id).arity, ?_⟩
  rw [← htake, List.take_append_drop]

/-- Only calls and constructions make calls. A call is of the method to which the reference leads, or
of the one that runs in its place. -/
theorem step_call_cases {inst : Instruction} {id : MethodId} {m m' : Machine}
    {arguments : List Value} {created : Option Value}
    (h : step inst m = .ok (.call id arguments created) m') :
    (∃ ref, construct ref m = .ok (.call id arguments created) m') ∨
      (∃ ref named, m.catalog.resolveMethod ref = .ok named ∧
        (id = named ∨ virtualTarget named m = .ok id m)) ∧
      (do return Flow.call id (← takeArguments id) none : Exec Flow) m =
        .ok (.call id arguments created) m' := by
  -- The method of a call is the one that its arguments were taken for.
  have hcallee {target : MethodId} {m : Machine}
      (h : (do return Flow.call target (← takeArguments target) none : Exec Flow) m =
        .ok (.call id arguments created) m') : id = target := by
    obtain ⟨taken, m₁, _, hflow⟩ := sequence_eq_ok_iff.mp h
    cases hflow
    rfl
  revert h
  unfold step
  cases htask : inst.task with
  | jump target =>
    intro h
    cases h
  | branch test target =>
    intro h
    obtain ⟨taken, m₁, _, hflow⟩ := sequence_eq_ok_iff.mp h
    cases taken <;> cases hflow
  | switch targets =>
    intro h
    obtain ⟨v, m₁, _, hindex⟩ := sequence_eq_ok_iff.mp h
    obtain ⟨index, m₂, _, hflow⟩ := sequence_eq_ok_iff.mp hindex
    split at hflow
    · cases hflow
    · cases htarget : targets[index.toInt.toNat]? with
      | none =>
        rw [htarget] at hflow
        cases hflow
      | some target =>
        rw [htarget] at hflow
        cases hflow
  | call ref =>
    intro h
    obtain ⟨target, m₁, htarget, hcall⟩ := sequence_eq_ok_iff.mp h
    obtain ⟨htarget, rfl⟩ := query_eq_ok_iff.mp htarget
    obtain rfl := hcallee hcall
    exact .inr ⟨⟨ref, id, eq_ok_of_mapError htarget, .inl rfl⟩, hcall⟩
  | callVirtual ref =>
    intro h
    obtain ⟨named, m₁, hnamed, hvirtual⟩ := sequence_eq_ok_iff.mp h
    obtain ⟨hnamed, rfl⟩ := query_eq_ok_iff.mp hnamed
    obtain ⟨target, m₂, htarget, hcall⟩ := sequence_eq_ok_iff.mp hvirtual
    obtain ⟨-, rfl⟩ := query_eq_ok_iff.mp htarget
    obtain rfl := hcallee hcall
    exact .inr ⟨⟨ref, named, eq_ok_of_mapError hnamed, .inr htarget⟩, hcall⟩
  | construct ref => exact fun h => .inl ⟨ref, h⟩
  | leave =>
    intro h
    cases h
  | unsupported =>
    intro h
    cases h
  | missingOperand =>
    intro h
    cases h
  | _ =>
    intro h
    obtain ⟨_, m₁, _, hflow⟩ := sequence_eq_ok_iff.mp h
    cases hflow

/-- Calls and constructions deliver their arguments. -/
theorem delivers_step {inst : Instruction} {id : MethodId} {m m' : Machine}
    {arguments : List Value} {created : Option Value}
    (h : step inst m = .ok (.call id arguments created) m')
    (hi : (m.catalog.method id).isStatic = false) :
    Delivers m m' (m.catalog.method id) arguments created := by
  rcases step_call_cases h with ⟨ref, hconstruct⟩ | ⟨-, hcall⟩
  · exact delivers_construct hconstruct hi
  · exact delivers_handOn hcall hi

end Exec

open Machine

/-- The frame that an instance call starts has the receiver and then the parameters in the order in
which they were pushed, for a construction with the new object as the receiver. Only where the order
is guessed and the last parameter is an instance of exactly the declaring type, the frame has all of
them in the reverse order. -/
theorem receiver_first_unless_misguessed {inst : Instruction} {m m₁ m₂ : Machine} {id : MethodId}
    {arguments : List Value} {created : Option Value}
    (hs : Exec.step inst m = .ok (.call id arguments created) m₁)
    (hi : (m.catalog.method id).isStatic = false)
    (he : Exec.enter id arguments m₁ = .ok () m₂) :
    ∃ frame receiver parameters started,
      m.calls.top? = some frame ∧ parameters.length = (m.catalog.method id).arity ∧
      Exec.Supplies m m₁ (m.catalog.method id).declaringType frame receiver parameters created ∧
      m₂.calls.top? = some started ∧ started.method = id ∧
      (¬ m₁.Misguesses (m.catalog.method id).declaringType parameters →
        started.arguments = receiver :: parameters) ∧
      (m₁.Misguesses (m.catalog.method id).declaringType parameters →
        started.arguments = (receiver :: parameters).reverse) := by
  obtain ⟨frame, receiver, parameters, ht, hlength, hsupplied, hpushed, hreversed⟩ :=
    Exec.delivers_step hs hi
  obtain ⟨-, rfl⟩ := enter_eq_ok he
  exact ⟨frame, receiver, parameters, _, ht, hlength, hsupplied, rfl, rfl, hpushed, hreversed⟩

/-- Adds the items of the list on top to the list beneath it. -/
def addRange : Instruction where
  opcode := .callvirt
  offset := 0
  operand := some (.method ⟨Library.list, "AddRange", ⟨false, [Library.sequence], .void⟩⟩)

/-- A machine on which two lists were made and a method runs that has pushed the first one and then
the second one. -/
def listsPushed (order : ArgumentOrder) : Machine :=
  let first := Outcome.machine (Exec.allocList #[] (Machine.new { argumentOrder := order } .empty))
  let second := Outcome.machine (Exec.allocList #[.int32 5] first)
  let m := second.withFrame ⟨0⟩ []
  { m with calls := m.calls.modifyTop fun frame =>
      (frame.push (.ref ⟨0, 0⟩)).push (.ref ⟨1, 0⟩) }

/-- What the step of `addRange` calls, and the frame that the call starts. -/
private theorem addRange_started (order : ArgumentOrder) (arguments : List Value)
    (h : (match Exec.step addRange (listsPushed order) with
      | .ok flow _ => some flow
      | .error _ _ => none) = some (.call ⟨15⟩ arguments none)) :
    ∃ m₁, Exec.step addRange (listsPushed order) = .ok (.call ⟨15⟩ arguments none) m₁ ∧
      Exec.enter ⟨15⟩ arguments m₁ = .ok () (m₁.withFrame ⟨15⟩ arguments) := by
  split at h
  · rename_i flow m₁ hstep
    cases h
    refine ⟨m₁, hstep, ?_⟩
    have hkept := sameCallers_step hstep
    rw [enter_apply, hkept.depth, hkept.maxDepth]
    rfl
  · cases h

/-- In the order of pushing, the first list is the receiver. -/
theorem receiver_first_unless_misguessed_pushed :
    ∃ m₁ m₂ started,
      Exec.step addRange (listsPushed .pushed) =
        .ok (.call ⟨15⟩ [.ref ⟨0, 0⟩, .ref ⟨1, 0⟩] none) m₁ ∧
      Exec.enter ⟨15⟩ [.ref ⟨0, 0⟩, .ref ⟨1, 0⟩] m₁ = .ok () m₂ ∧
      m₂.calls.top? = some started ∧ started.arguments = [.ref ⟨0, 0⟩, .ref ⟨1, 0⟩] := by
  obtain ⟨m₁, hs, he⟩ := addRange_started .pushed [.ref ⟨0, 0⟩, .ref ⟨1, 0⟩] (by decide +kernel)
  have hi : ((listsPushed .pushed).catalog.method ⟨15⟩).isStatic = false := by decide +kernel
  have harity : ((listsPushed .pushed).catalog.method ⟨15⟩).arity = 1 := by decide +kernel
  have horder : m₁.options.argumentOrder = .pushed := by
    rw [(sameCallers_step hs).options]
    rfl
  obtain ⟨frame, receiver, parameters, started, ht, hlength, hsupplied, htop, -, hpushed, -⟩ :=
    receiver_first_unless_misguessed hs hi he
  have hright := hpushed fun hmis => nomatch hmis.1.symm.trans horder
  obtain ⟨-, rest, hstack⟩ := hsupplied
  obtain ⟨parameter, rfl⟩ := List.length_eq_one_iff.mp (hlength.trans harity)
  cases ht
  cases hstack
  exact ⟨m₁, _, started, hs, he, htop, hright⟩

/-- Where the order is guessed, the second list is taken for the receiver: the call adds the items
of the first list to it. -/
theorem receiver_misguessed :
    ∃ frame m₁ m₂ started,
      (listsPushed .guessed).calls.top? = some frame ∧
      frame.stack = [.ref ⟨1, 0⟩, .ref ⟨0, 0⟩] ∧
      Exec.step addRange (listsPushed .guessed) =
        .ok (.call ⟨15⟩ [.ref ⟨1, 0⟩, .ref ⟨0, 0⟩] none) m₁ ∧
      ((listsPushed .guessed).catalog.method ⟨15⟩).isStatic = false ∧
      ((listsPushed .guessed).catalog.method ⟨15⟩).arity = 1 ∧
      Exec.enter ⟨15⟩ [.ref ⟨1, 0⟩, .ref ⟨0, 0⟩] m₁ = .ok () m₂ ∧
      m₂.calls.top? = some started ∧ started.arguments ≠ [.ref ⟨0, 0⟩, .ref ⟨1, 0⟩] := by
  obtain ⟨m₁, hs, he⟩ := addRange_started .guessed [.ref ⟨1, 0⟩, .ref ⟨0, 0⟩] (by decide +kernel)
  exact ⟨_, m₁, _, _, rfl, rfl, hs, by decide +kernel, by decide +kernel, he, rfl,
    by simp [Frame.start]⟩

end ManagedCode
