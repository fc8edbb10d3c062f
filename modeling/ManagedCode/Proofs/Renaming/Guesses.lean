import ManagedCode.Proofs.Execution.Receivers
import ManagedCode.Proofs.Renaming.Twins

/-!
# Guessing the order of arguments

A machine that guesses the order of arguments differs from one that keeps the order of pushing only
when an instance method is called whose last parameter is an instance of exactly the declaring type.
At such a call it hands on the reversed list. A run on which no such call is made is the same on
both machines, instruction by instruction.
-/

namespace ManagedCode

namespace Machine

/-- The machine with another way to take arguments. -/
def withOrder (m : Machine) (order : ArgumentOrder) : Machine :=
  { m with options := { m.options with argumentOrder := order } }

/-- The order that was set last counts. -/
theorem withOrder_withOrder (m : Machine) (order last : ArgumentOrder) :
    (m.withOrder order).withOrder last = m.withOrder last := rfl

/-- The second machine is the first one, which keeps the order of pushing, except that it guesses
the order. -/
structure Guesses (m m' : Machine) : Prop where
  pushed : m.options.argumentOrder = .pushed
  eq : m' = m.withOrder .guessed

/-- Leaving a frame does not depend on the order of arguments. -/
theorem exitFrame_withOrder (m : Machine) (order : ArgumentOrder) :
    (m.withOrder order).exitFrame = m.exitFrame.withOrder order := by
  have hcalls : (m.withOrder order).calls = m.calls := rfl
  unfold exitFrame
  rw [hcalls]
  cases m.calls.pop? <;> rfl

/-- Guessing leaves what a computation can see as it is. -/
theorem Guesses.twinRelation : TwinRelation Guesses where
  catalog := by
    rintro m _ ⟨_, rfl⟩
    exact .refl m.catalog
  core := by
    rintro m _ ⟨_, rfl⟩
    rfl
  heap := by
    rintro m _ ⟨_, rfl⟩
    rfl
  statics := by
    rintro m _ ⟨_, rfl⟩
    rfl
  output := by
    rintro m _ ⟨_, rfl⟩
    rfl
  files := by
    rintro m _ ⟨_, rfl⟩
    rfl
  top := by
    rintro m _ ⟨_, rfl⟩
    have hsame : ∀ top : Option Frame, Option.Rel (Frame.Alike (PEquiv.refl Handle)) top top := by
      intro top
      cases top with
      | none => exact .none
      | some frame => exact .some ((Frame.alike_refl_iff rfl).mpr rfl)
    exact hsame m.calls.top?
  maxArrayLength := by
    rintro m _ ⟨_, rfl⟩
    rfl
  depth := by
    rintro m _ ⟨_, rfl⟩
    rfl
  maxDepth := by
    rintro m _ ⟨_, rfl⟩
    rfl
  setHeap := by
    rintro m _ ⟨hp, rfl⟩ heap
    exact ⟨hp, rfl⟩
  setStatics := by
    rintro m _ ⟨hp, rfl⟩ statics
    exact ⟨hp, rfl⟩
  setOutput := by
    rintro m _ ⟨hp, rfl⟩ output
    exact ⟨hp, rfl⟩
  setFiles := by
    rintro m _ ⟨hp, rfl⟩ files
    exact ⟨hp, rfl⟩
  modifyTop := by
    rintro m _ f g ⟨hp, rfl⟩ hfg
    refine ⟨hp, ?_⟩
    -- Frames that are alike without a renaming are equal, so both changes make the same frame.
    have hcalls : m.calls.modifyTop g = m.calls.modifyTop f := by
      unfold CallStack.modifyTop
      cases hframes : m.calls.frames with
      | nil => rfl
      | cons frame rest =>
        have ht : m.calls.top? = some frame := by rw [CallStack.top?, hframes, List.head?_cons]
        obtain ⟨halike, hf, hg⟩ := hfg frame frame ht ht
        have hsame : f frame = g frame := (Frame.alike_refl_iff (hf.trans hg.symm)).mp halike
        simp only [hsame]
    simp only [withOrder, hcalls]
  withFrame := by
    rintro m _ ⟨hp, rfl⟩ id values
    exact ⟨hp, rfl⟩
  exitFrame := by
    rintro _ _ m _ - ⟨hp, rfl⟩ -
    refine ⟨?_, exitFrame_withOrder m .guessed⟩
    rw [options_exitFrame]
    exact hp
  popLastExited := by
    rintro m _ frame frame' v w ⟨hp, rfl⟩ hx hy
    have hpushed : frame.push v = frame'.push w := Option.some.inj (hx.symm.trans hy)
    have hpopped := congrArg Frame.pop? hpushed
    obtain rfl : frame = frame' := congrArg Prod.snd (Option.some.inj hpopped)
    exact ⟨hp, rfl⟩

end Machine

/-- The outcome on the machine with another way to take arguments. -/
def Outcome.withOrder {α : Type} (order : ArgumentOrder) : Outcome α → Outcome α
  | .ok a m => .ok a (m.withOrder order)
  | .error fault m => .error fault (m.withOrder order)

namespace Exec

open Machine

/-- A computation that is paired with itself does the same where the order is guessed. -/
theorem Paired.guessed {α : Type} {x : Exec α} {R : Renaming → α → α → Prop}
    (hx : Paired (PEquiv.refl Handle) x x R) (hR : ∀ a b, R (PEquiv.refl Handle) a b → a = b)
    {m : Machine} (hp : m.options.argumentOrder = .pushed) :
    x (m.withOrder .guessed) = Outcome.withOrder .guessed (x m) ∧
      (Outcome.machine (x m)).options.argumentOrder = .pushed ∧
      ∀ a m₁, x m = .ok a m₁ → R (PEquiv.refl Handle) a a := by
  have hfollowed := Guesses.twinRelation.parallel.paired hx ⟨rfl, hp, rfl⟩
  generalize x m = first, hy : some (x (m.withOrder .guessed)) = second at hfollowed
  cases hfollowed with
  | excused h => exact h.elim
  | ok _ hm hab =>
    obtain ⟨rfl, hp', rfl⟩ := hm
    obtain rfl := hR _ _ hab
    refine ⟨Option.some.inj hy, hp', ?_⟩
    rintro _ _ ⟨⟩
    exact hab
  | fault _ hm hf =>
    obtain ⟨rfl, hp', rfl⟩ := hm
    obtain rfl := Fault.eq_of_alike_refl hf
    exact ⟨Option.some.inj hy, hp', nofun⟩

end Exec

/-! ## Calls that mislead -/

namespace Machine

/-- The arguments of an instance method, in the order of pushing, end with a parameter that is an
instance of exactly the declaring type. -/
def Misleads (m : Machine) (id : MethodId) : List Value → Prop
  | [] => False
  | _ :: parameters =>
    (m.catalog.method id).isStatic = false ∧
      ∃ last ∈ parameters.getLast?, m.IsInstance (m.catalog.method id).declaringType last

instance (m : Machine) (type : TypeId) (v : Value) : Decidable (m.IsInstance type v) :=
  match v with
  | .ref handle =>
    decidable_of_iff ((m.heap.get? handle).any fun object => object.type == type)
      (by simp [IsInstance, Option.any_eq_true])
  | .null | .int32 _ | .int64 _ | .float64 _ => isFalse False.elim

instance (m : Machine) (id : MethodId) (arguments : List Value) :
    Decidable (m.Misleads id arguments) :=
  match arguments with
  | [] => isFalse False.elim
  | _ :: _ => inferInstanceAs (Decidable (_ ∧ _))

/-- The arguments, given in the order of pushing, as they come where the order is guessed. -/
def guess (m : Machine) (id : MethodId) (arguments : List Value) : List Value :=
  if m.Misleads id arguments then arguments.reverse else arguments

/-- A receiver in front of the parameters misleads exactly if they alone are misguessed. -/
theorem misleads_cons_iff {m : Machine} {id : MethodId} {receiver : Value}
    {parameters : List Value} :
    m.Misleads id (receiver :: parameters) ↔
      (m.catalog.method id).isStatic = false ∧
        (m.withOrder .guessed).Misguesses (m.catalog.method id).declaringType parameters := by
  constructor
  · rintro ⟨hinstance, last, hlast, hi⟩
    exact ⟨hinstance, rfl, last, hlast, hi⟩
  · rintro ⟨hinstance, -, last, hlast, hi⟩
    exact ⟨hinstance, last, hlast, hi⟩

/-- Values that were taken from the evaluation stack are put into the guessed order. -/
theorem guess_reverse (m : Machine) (id : MethodId) (taken : List Value) :
    (if (m.catalog.method id).isStatic ∨ taken.length ≤ 1 then taken.reverse
      else m.orderArguments (m.catalog.method id).declaringType taken) =
      m.guess id taken.reverse := by
  unfold guess
  rcases List.eq_nil_or_concat' taken with rfl | ⟨others, receiver, rfl⟩
  · simp [Misleads]
  · -- The value that was taken last is the receiver.
    have hreverse : (others ++ [receiver]).reverse = receiver :: others.reverse := by simp
    rw [hreverse]
    by_cases hstatic : (m.catalog.method id).isStatic = true
    · rw [if_pos (Or.inl hstatic), if_neg]
      rw [misleads_cons_iff, hstatic]
      simp
    · have hinstance : (m.catalog.method id).isStatic = false := Bool.eq_false_iff.mpr hstatic
      have hguessed : ¬ (m.withOrder .guessed).options.argumentOrder = .pushed := nofun
      have hordered := @Exec.ordered_of_taken (m.withOrder .guessed)
        (m.catalog.method id).declaringType receiver others.reverse _ rfl
      simp only [List.reverse_reverse, hreverse, hguessed, false_or] at hordered
      simp only [hinstance, Bool.false_eq_true, false_or]
      by_cases hmis : m.Misleads id (receiver :: others.reverse)
      · rw [if_pos hmis]
        exact hordered.2 (misleads_cons_iff.mp hmis).2
      · rw [if_neg hmis]
        exact hordered.1 fun h => hmis (misleads_cons_iff.mpr ⟨hinstance, h⟩)

end Machine

/-- Where execution goes on if the order is guessed. -/
def Flow.guess (m : Machine) : Flow → Flow
  | .call id arguments created => .call id (m.guess id arguments) created
  | flow => flow

/-- Without a call there is nothing to guess. -/
theorem Flow.IsLocal.guess_eq {flow : Flow} (h : flow.IsLocal) (m : Machine) :
    flow.guess m = flow := by
  cases flow with
  | call id arguments created => exact h.elim
  | _ => rfl

namespace Exec

open Machine

/-- Taking arguments is taking values from the evaluation stack and putting them into order. -/
theorem takeArguments_apply (id : MethodId) (m : Machine) :
    takeArguments id m =
      match takeTop (m.catalog.method id).argumentCount m with
      | .ok taken m₁ =>
        .ok
          (if m₁.options.argumentOrder = .pushed ∨ (m.catalog.method id).isStatic ∨
              taken.length ≤ 1 then taken.reverse
          else m₁.orderArguments (m.catalog.method id).declaringType taken) m₁
      | .error fault m₁ => .error fault m₁ := by
  have hmethod : query (fun m => .ok (m.catalog.method id)) m = .ok (m.catalog.method id) m := rfl
  unfold takeArguments
  rw [bind_of_ok _ hmethod]
  cases ht : takeTop (m.catalog.method id).argumentCount m with
  | error fault m₁ => exact bind_of_error _ ht
  | ok taken m₁ =>
    rw [bind_of_ok _ ht, query_apply]
    by_cases hc : m₁.options.argumentOrder = .pushed ∨ (m.catalog.method id).isStatic ∨
        taken.length ≤ 1
    · simp only [if_pos hc]
    · simp only [if_neg hc]

/-- Guessing takes the same arguments and may put them in another order. -/
theorem takeArguments_guessed {m : Machine} (hp : m.options.argumentOrder = .pushed)
    (id : MethodId) :
    takeArguments id (m.withOrder .guessed) =
      match takeArguments id m with
      | .ok arguments m₁ => .ok (m₁.guess id arguments) (m₁.withOrder .guessed)
      | .error fault m₁ => .error fault (m₁.withOrder .guessed) := by
  obtain ⟨htake, hkept, -⟩ :=
    (Paired.takeTop (m.catalog.method id).argumentCount).guessed
      (fun _ _ => Values.alike_refl_iff.mp) hp
  have hcomposed : Composed [] (takeTop (m.catalog.method id).argumentCount) fun taken =>
      taken := .takeTop _
  have hcatalog : (m.withOrder .guessed).catalog = m.catalog := rfl
  rw [takeArguments_apply, takeArguments_apply, hcatalog, htake]
  have hcallers := hcomposed.sameCallers m
  cases ht : takeTop (m.catalog.method id).argumentCount m with
  | error fault m₁ => rfl
  | ok taken m₁ =>
    rw [ht] at hkept hcallers
    have hpushed : m₁.options.argumentOrder = .pushed := hkept
    have hmethod : m₁.catalog.method id = m.catalog.method id :=
      congrArg (·.method id) hcallers.catalog
    have hguessed : (m₁.withOrder .guessed).options.argumentOrder ≠ .pushed := nofun
    have hordered : (m₁.withOrder .guessed).orderArguments = m₁.orderArguments := rfl
    have hguess := guess_reverse m₁ id taken
    rw [hmethod] at hguess
    simp only [Outcome.withOrder, hguessed, hpushed, hordered, hguess, false_or, true_or, if_true]

/-- Where the order is guessed, an instruction does the same, except that a call that misleads gets
its arguments in the reverse order. -/
theorem step_guessed {m : Machine} (hp : m.options.argumentOrder = .pushed) (inst : Instruction) :
    step inst (m.withOrder .guessed) =
      match step inst m with
      | .ok flow m₁ => .ok (flow.guess m₁) (m₁.withOrder .guessed)
      | .error fault m₁ => .error fault (m₁.withOrder .guessed) := by
  cases hc : callee? inst.task with
  | none =>
    obtain ⟨hstep, -, hlocal⟩ := (paired_step hc).guessed (fun _ _ h => h.1) hp
    rw [hstep]
    cases hs : step inst m with
    | error fault m₁ => rfl
    | ok flow m₁ =>
      have hsame : flow.guess m₁ = flow := (hlocal flow m₁ hs).2.guess_eq m₁
      simp only [Outcome.withOrder, hsame]
  | some find =>
    obtain ⟨hfind, hkept, -⟩ := (paired_callee hc).guessed (fun p q h =>
      Prod.ext h.1 (Value.option_alike_refl_iff.mp h.2)) hp
    rw [step_of_callee hc]
    cases hf : find m with
    | error fault m₁ =>
      rw [hf] at hfind
      rw [bind_of_error _ hf, bind_of_error _ hfind]
    | ok found m₁ =>
      obtain ⟨id, created⟩ := found
      rw [hf] at hfind hkept
      have hpushed : m₁.options.argumentOrder = .pushed := hkept
      have htake := takeArguments_guessed hpushed id
      rw [bind_of_ok _ hf, bind_of_ok _ hfind]
      dsimp only
      cases ht : takeArguments id m₁ with
      | error fault m₂ =>
        rw [ht] at htake
        rw [bind_of_error _ ht, bind_of_error _ htake]
      | ok arguments m₂ =>
        rw [ht] at htake
        rw [bind_of_ok _ ht, bind_of_ok _ htake]
        rfl

end Exec

/-! ## Runs -/

namespace Machine

/-- A method is called that gets a frame, with arguments that mislead. -/
def Misled : Outcome Flow → Prop
  | .ok (.call id arguments _) m => m.calls.depth < m.calls.maxDepth ∧ m.Misleads id arguments
  | _ => False

instance : (stepped : Outcome Flow) → Decidable (Misled stepped)
  | .ok (.call _ _ _) _ => inferInstanceAs (Decidable (_ ∧ _))
  | .ok .next _ | .ok (.jump _) _ | .ok .leave _ | .error _ _ => isFalse False.elim

/-- The instructions that a call evaluates, each with the machine before it, where `visit` gives
those of a body. -/
def sitesWith (visit : Body → Machine → List (Instruction × Machine)) (id : MethodId)
    (arguments : List Value) (m : Machine) : List (Instruction × Machine) :=
  match Exec.enter id arguments m with
  | .error _ _ => []
  | .ok _ m =>
    let method := m.catalog.method id
    if method.isNative then [] else visit method.body m

/-- The instructions that are evaluated from a position of a body on, each with the machine before
it, in the order in which they are evaluated. -/
def bodySites : (fuel : Nat) → Body → (position : Nat) → Machine → List (Instruction × Machine)
  | 0, _, _, _ => []
  | fuel + 1, body, position, m =>
    match body.get? position with
    | none => []
    | some inst =>
      (inst, m) ::
        match Exec.step inst m with
        | .error _ _ => []
        | .ok .leave _ => []
        | .ok .next m => bodySites fuel body (position + 1) m
        | .ok (.jump target) m =>
          match body.indexOf? target with
          | some position => bodySites fuel body position m
          | none => []
        | .ok (.call id arguments created) m =>
          sitesWith (fun callee m => bodySites fuel callee 0 m) id arguments m ++
            match callWith (fun callee m => runBody fuel callee 0 m) id arguments m with
            | some (.ok result m) =>
              match Exec.pushResults result created m with
              | .error _ _ => []
              | .ok _ m => bodySites fuel body (position + 1) m
            | _ => []

/-- The instructions that a call evaluates, each with the machine before it. -/
def sites (fuel : Nat) (id : MethodId) (arguments : List Value) (m : Machine) :
    List (Instruction × Machine) :=
  sitesWith (fun body m => bodySites fuel body 0 m) id arguments m

/-- No instruction among these misleads. -/
def Clear (sites : List (Instruction × Machine)) : Prop :=
  ∀ site ∈ sites, ¬ Misled (Exec.step site.1 site.2)

instance (sites : List (Instruction × Machine)) : Decidable (Clear sites) :=
  inferInstanceAs (Decidable (∀ site ∈ sites, _))

/-- Taking a result does not depend on the order of arguments. -/
theorem takeResult_withOrder (id : MethodId) (m : Machine) (order : ArgumentOrder) :
    Exec.takeResult id (m.withOrder order) =
      Outcome.withOrder order (Exec.takeResult id m) := by
  unfold Exec.takeResult
  have hcatalog : (m.withOrder order).catalog = m.catalog := rfl
  have hcalls : (m.withOrder order).calls = m.calls := rfl
  rw [hcatalog, hcalls]
  split
  · cases m.calls.lastExited.bind Frame.pop? <;> rfl
  · rfl

/-- Leaving a method does not depend on the order of arguments. -/
theorem leave_withOrder (id : MethodId) (worked : Outcome Unit) (order : ArgumentOrder) :
    leave id (worked.withOrder order) = Outcome.withOrder order (leave id worked) := by
  cases worked with
  | ok _ m =>
    simp only [Outcome.withOrder, leave, exitFrame_withOrder]
    exact takeResult_withOrder id m.exitFrame order
  | error fault m => simp only [Outcome.withOrder, leave, exitFrame_withOrder]

/-- A call that gets no frame ends with the same fault whatever its arguments are. -/
theorem callWith_of_full {run : Body → Machine → Option (Outcome Unit)} {m : Machine}
    (h : m.calls.maxDepth ≤ m.calls.depth) (id : MethodId) (arguments : List Value) :
    callWith run id arguments m =
      some (.error (.stackOverflow (m.calls.depth + 1) m.calls.maxDepth) m) := by
  unfold callWith
  rw [enter_apply, if_pos h]

/-- A call is the same where the order is guessed if the bodies that it runs are. -/
theorem callWith_guessed {run : Body → Machine → Option (Outcome Unit)}
    {visit : Body → Machine → List (Instruction × Machine)}
    (hrun : ∀ body m, m.options.argumentOrder = .pushed → Clear (visit body m) →
      run body (m.withOrder .guessed) = (run body m).map (Outcome.withOrder .guessed))
    {m : Machine} (hp : m.options.argumentOrder = .pushed) {id : MethodId}
    {arguments : List Value} (hclear : Clear (sitesWith visit id arguments m)) :
    callWith run id arguments (m.withOrder .guessed) =
      (callWith run id arguments m).map (Outcome.withOrder .guessed) := by
  by_cases hfull : m.calls.maxDepth ≤ m.calls.depth
  · have hfull' : (m.withOrder .guessed).calls.maxDepth ≤ (m.withOrder .guessed).calls.depth := hfull
    rw [callWith_of_full hfull, callWith_of_full hfull']
    rfl
  · have henter : Exec.enter id arguments m = .ok () (m.withFrame id arguments) := by
      rw [enter_apply, if_neg hfull]
    have henter' : Exec.enter id arguments (m.withOrder .guessed) =
        .ok () ((m.withFrame id arguments).withOrder .guessed) := by
      rw [enter_apply]
      exact if_neg hfull
    have hpushed : (m.withFrame id arguments).options.argumentOrder = .pushed := hp
    have hcatalog : ((m.withFrame id arguments).withOrder .guessed).catalog =
        (m.withFrame id arguments).catalog := rfl
    unfold sitesWith at hclear
    unfold callWith
    rw [henter] at hclear
    rw [henter, henter']
    dsimp only at hclear ⊢
    rw [hcatalog]
    split
    · obtain ⟨hnative, -, -⟩ := (Exec.paired_runNative id).guessed (fun _ _ h => h) hpushed
      rw [hnative]
      exact congrArg some (leave_withOrder id _ _)
    · rename_i hn
      rw [if_neg hn] at hclear
      rw [hrun _ _ hpushed hclear, Option.map_map, Option.map_map]
      congr 1
      funext worked
      exact leave_withOrder id worked _

/-- A call with guessed arguments is the same call unless it gets a frame and the arguments mislead.
-/
theorem callWith_guess {run : Body → Machine → Option (Outcome Unit)}
    {visit : Body → Machine → List (Instruction × Machine)}
    (hrun : ∀ body m, m.options.argumentOrder = .pushed → Clear (visit body m) →
      run body (m.withOrder .guessed) = (run body m).map (Outcome.withOrder .guessed))
    {m : Machine} (hp : m.options.argumentOrder = .pushed) {id : MethodId}
    {arguments : List Value} (hclear : Clear (sitesWith visit id arguments m))
    (hnot : ¬ (m.calls.depth < m.calls.maxDepth ∧ m.Misleads id arguments)) :
    callWith run id (m.guess id arguments) (m.withOrder .guessed) =
      (callWith run id arguments m).map (Outcome.withOrder .guessed) := by
  rw [← callWith_guessed hrun hp hclear]
  by_cases hfull : m.calls.maxDepth ≤ m.calls.depth
  · have hfull' : (m.withOrder .guessed).calls.maxDepth ≤ (m.withOrder .guessed).calls.depth := hfull
    rw [callWith_of_full hfull', callWith_of_full hfull']
  · have hsame : m.guess id arguments = arguments := by
      unfold guess
      rw [if_neg]
      intro hmis
      exact hnot ⟨Nat.lt_of_not_le hfull, hmis⟩
    rw [hsame]

/-- What follows a call is the same where the order is guessed. -/
private theorem resume_guessed {result created : Option Value} {m : Machine}
    {rest : Machine → Option (Outcome Unit)} (hp : m.options.argumentOrder = .pushed)
    (hrest : ∀ m', Exec.pushResults result created m = .ok () m' →
      m'.options.argumentOrder = .pushed →
      rest (m'.withOrder .guessed) = (rest m').map (Outcome.withOrder .guessed)) :
    (match Exec.pushResults result created (m.withOrder .guessed) with
      | .error fault m => some (.error fault m)
      | .ok _ m => rest m : Option (Outcome Unit)) =
      (match Exec.pushResults result created m with
      | .error fault m => some (.error fault m)
      | .ok _ m => rest m : Option (Outcome Unit)).map (Outcome.withOrder .guessed) := by
  have hsame : ∀ v? : Option Value, Option.Rel (Value.Alike (PEquiv.refl Handle)) v? v? :=
    fun _ => Value.option_alike_refl_iff.mpr rfl
  obtain ⟨hpush, hpushed, -⟩ :=
    (Exec.paired_pushResults (hsame result) (hsame created)).guessed (fun _ _ h => h) hp
  rw [hpush]
  cases hresumed : Exec.pushResults result created m with
  | error fault m' => rfl
  | ok _ m' =>
    rw [hresumed] at hpushed
    exact hrest m' hresumed hpushed

/-- The rest of a body is the same where the order is guessed if no instruction misleads. -/
theorem runBody_guessed {fuel : Nat} {body : Body} {position : Nat} {m : Machine}
    (hp : m.options.argumentOrder = .pushed) (hclear : Clear (bodySites fuel body position m)) :
    runBody fuel body position (m.withOrder .guessed) =
      (runBody fuel body position m).map (Outcome.withOrder .guessed) := by
  -- The run and the list of its sites go through the body in the same way.
  induction fuel generalizing body position m with
  | zero => rfl
  | succ fuel ih =>
    unfold bodySites at hclear
    unfold runBody
    cases hg : body.get? position with
    | none => rfl
    | some inst =>
      rw [hg] at hclear
      dsimp only at hclear ⊢
      have hhere : ¬ Misled (Exec.step inst m) := hclear (inst, m) List.mem_cons_self
      have hrest := fun site hm => hclear site (List.mem_cons_of_mem _ hm)
      have hkept := (sameCallers_evaluated inst m).options
      rw [Exec.step_guessed hp inst]
      cases hs : Exec.step inst m with
      | error fault m₁ => rfl
      | ok flow m₁ =>
        rw [hs] at hhere hrest hkept
        have hpushed : m₁.options.argumentOrder = .pushed :=
          (congrArg Options.argumentOrder hkept).trans hp
        cases flow with
        | next => exact ih hpushed hrest
        | leave => rfl
        | jump target =>
          dsimp only [Flow.guess] at hrest ⊢
          cases ht : body.indexOf? target with
          | none => rfl
          | some position' =>
            rw [ht] at hrest
            exact ih hpushed hrest
        | call id arguments created =>
          dsimp only [Flow.guess] at hhere hrest ⊢
          have hcallee : Clear (sitesWith (fun callee m => bodySites fuel callee 0 m) id arguments
              m₁) := fun site hm => hrest site (List.mem_append_left _ hm)
          have hafter := fun site hm => hrest site (List.mem_append_right _ hm)
          have hcalled : callWith (fun callee m => runBody fuel callee 0 m) id
              (m₁.guess id arguments) (m₁.withOrder .guessed) =
              (callWith (fun callee m => runBody fuel callee 0 m) id arguments m₁).map
                (Outcome.withOrder .guessed) :=
            callWith_guess (fun _ _ hp hclear => ih hp hclear) hpushed hcallee hhere
          rw [hcalled]
          cases hcall : callWith (fun callee m => runBody fuel callee 0 m) id arguments m₁ with
          | none => rfl
          | some called =>
            rw [hcall] at hafter
            have hends := ends_of_callWith (fun _ _ _ => ends_of_runBody) hcall
            cases called with
            | error fault m₂ => rfl
            | ok result m₂ =>
              have hpushed₂ : m₂.options.argumentOrder = .pushed :=
                (congrArg Options.argumentOrder hends.sameCallers.options).trans hpushed
              refine resume_guessed hpushed₂ fun m₃ hresumed hpushed₃ => ?_
              dsimp only at hafter
              rw [hresumed] at hafter
              exact ih hpushed₃ hafter

/-- Guessing the order of arguments makes a difference in one situation only. Take a machine once
with the order of pushing and once with the order guessed. If no instruction that a call evaluates
in the order of pushing calls an instance method whose last parameter is an instance of exactly the
declaring type, then the call ends with the order guessed if it ends in the order of pushing, with
the same result or fault, and nothing but the order itself is then different between the machines.
At an instruction that does call such a method, the guessed order is exactly the reverse: the last
parameter comes first and the receiver last. -/
theorem guessing_agrees_unless_misled (m : Machine) :
    (∀ (fuel : Nat) (id : MethodId) (arguments : List Value),
      Clear ((m.withOrder .pushed).sites fuel id arguments) →
        (m.withOrder .guessed).call fuel id arguments =
          ((m.withOrder .pushed).call fuel id arguments).map (Outcome.withOrder .guessed)) ∧
      ∀ (inst : Instruction) (id : MethodId) (arguments : List Value) (created : Option Value)
        (m₁ : Machine),
        Exec.step inst (m.withOrder .pushed) = .ok (.call id arguments created) m₁ →
        m₁.Misleads id arguments →
          Exec.step inst (m.withOrder .guessed) =
            .ok (.call id arguments.reverse created) (m₁.withOrder .guessed) := by
  constructor
  · intro fuel id arguments hclear
    exact callWith_guessed (fun _ _ hp hclear => runBody_guessed hp hclear) rfl hclear
  · intro inst id arguments created m₁ hs hmisleads
    have hpushed : (m.withOrder .pushed).options.argumentOrder = .pushed := rfl
    have hguess : m₁.guess id arguments = arguments.reverse := if_pos hmisleads
    have hstep := Exec.step_guessed hpushed inst
    rw [hs, withOrder_withOrder] at hstep
    rw [hstep]
    simp only [Flow.guess, hguess]

/-- A module with a method that adds a number to the list that it gets. -/
def addingModule : ModuleSource where
  assembly := "App"
  types := [⟨"", "Program", none⟩]
  fields _ := .ok []
  constructors _ := .ok []
  methods _ := .ok [⟨"Fill", ⟨true, [Library.list], .void⟩, false, false, ⟨#[
    ⟨.ldarg0, 0, none⟩, ⟨.ldcI45, 1, none⟩,
    ⟨.callvirt, 2, some (.method ⟨Library.list, "Add", ⟨false, [Library.item], .void⟩⟩)⟩,
    ⟨.ret, 7, none⟩]⟩⟩]

/-- Adding a number to a list misleads nobody, so the list gets it in either order. Adding a list to
a list misleads. -/
theorem guessing_agrees_unless_misled_added :
    let listed := Outcome.machine (Exec.allocList #[] (Machine.new {} .empty))
    let m := Outcome.machine (listed.loadModule addingModule)
    let id : MethodId := ⟨Library.catalog.methods.size⟩
    let call (order : ArgumentOrder) := (m.withOrder order).call 4 id [.ref ⟨0, 0⟩]
    ((m.withOrder .pushed).sites 4 id [.ref ⟨0, 0⟩]).length = 4 ∧
      (∃ outcome, call .pushed = some outcome ∧
        call .guessed = some (outcome.withOrder .guessed) ∧
        outcome.machine.listOf ⟨0, 0⟩ = .ok #[.int32 5]) ∧
      ∃ m₁,
        Exec.step addRange ((listsPushed .guessed).withOrder .pushed) =
          .ok (.call ⟨15⟩ [.ref ⟨0, 0⟩, .ref ⟨1, 0⟩] none) m₁ ∧
        Exec.step addRange ((listsPushed .guessed).withOrder .guessed) =
          .ok (.call ⟨15⟩ [.ref ⟨1, 0⟩, .ref ⟨0, 0⟩] none) (m₁.withOrder .guessed) := by
  intro listed m id call
  refine ⟨by decide +kernel, ?_, ?_⟩
  · have hclear : Clear ((m.withOrder .pushed).sites 4 id [.ref ⟨0, 0⟩]) := by decide +kernel
    have hadded : (call .pushed).any (fun outcome =>
        decide (outcome.machine.listOf ⟨0, 0⟩ = .ok #[.int32 5])) = true := by
      decide +kernel
    obtain ⟨outcome, hcall, hitems⟩ := (Option.any_eq_true _ _).mp hadded
    refine ⟨outcome, hcall, ?_, of_decide_eq_true hitems⟩
    have hsame := (guessing_agrees_unless_misled m).1 4 id [.ref ⟨0, 0⟩] hclear
    rwa [show (m.withOrder .pushed).call 4 id [.ref ⟨0, 0⟩] = some outcome from hcall] at hsame
  · have hrun : EStateM.run' (Exec.step addRange) ((listsPushed .guessed).withOrder .pushed) =
        some (.call ⟨15⟩ [.ref ⟨0, 0⟩, .ref ⟨1, 0⟩] none) := by
      decide +kernel
    have hmisled : Misled (Exec.step addRange ((listsPushed .guessed).withOrder .pushed)) := by
      decide +kernel
    delta EStateM.run' EStateM.run at hrun
    cases hs : Exec.step addRange ((listsPushed .guessed).withOrder .pushed) with
    | error fault m₁ => simp [hs] at hrun
    | ok flow m₁ =>
      simp only [hs, Option.some.injEq] at hrun
      subst hrun
      rw [hs] at hmisled
      exact ⟨m₁, rfl, (guessing_agrees_unless_misled _).2 _ _ _ _ m₁ hs hmisled.2⟩

end Machine

end ManagedCode
