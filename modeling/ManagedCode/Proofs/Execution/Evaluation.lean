import ManagedCode.Execution.Run
import ManagedCode.Proofs.Execution.Composition

/-!
# Runs without fuel

`Ends` says how a call or the rest of a body ends, with one rule for each way through the run, and
`Passes` says which machines a run passes on the way, whether it ends or not. Neither mentions fuel.
A run with fuel that ends does so by `Ends`, so a fact about all runs is proved by induction on it.
-/

namespace ManagedCode

/-- What a machine is asked to do. -/
inductive Work where
  /-- Calling a method. -/
  | call (id : MethodId) (arguments : List Value)
  /-- Stepping through the instructions of a body from a position on. -/
  | body (body : Body) (position : Nat)

/-- What a work gives that succeeds. -/
abbrev Work.Result : Work → Type
  | .call .. => Option Value
  | .body .. => Unit

namespace Machine

/-- The work, begun on a machine, ends with an outcome. -/
inductive Ends : (work : Work) → Machine → Outcome work.Result → Prop
  | refused {id : MethodId} {arguments : List Value} {m m' : Machine} {fault : Fault}
      (he : Exec.enter id arguments m = .error fault m') :
      Ends (.call id arguments) m (.error fault m')
  | native {id : MethodId} {arguments : List Value} {m m' : Machine}
      (he : Exec.enter id arguments m = .ok () m') (hn : (m'.catalog.method id).isNative = true) :
      Ends (.call id arguments) m (leave id (Exec.runNative id m'))
  | interpreted {id : MethodId} {arguments : List Value} {m m' : Machine} {worked : Outcome Unit}
      (he : Exec.enter id arguments m = .ok () m') (hn : (m'.catalog.method id).isNative = false)
      (hb : Ends (.body (m'.catalog.method id).body 0) m' worked) :
      Ends (.call id arguments) m (leave id worked)
  | passed {body : Body} {position : Nat} {m : Machine} (hg : body.get? position = none) :
      Ends (.body body position) m (.ok () m)
  | faulted {body : Body} {position : Nat} {m m' : Machine} {inst : Instruction} {fault : Fault}
      (hg : body.get? position = some inst) (hs : Exec.step inst m = .error fault m') :
      Ends (.body body position) m (.error fault m')
  | left {body : Body} {position : Nat} {m m' : Machine} {inst : Instruction}
      (hg : body.get? position = some inst) (hs : Exec.step inst m = .ok .leave m') :
      Ends (.body body position) m (.ok () m')
  | next {body : Body} {position : Nat} {m m' : Machine} {inst : Instruction}
      {outcome : Outcome Unit} (hg : body.get? position = some inst)
      (hs : Exec.step inst m = .ok .next m') (hr : Ends (.body body (position + 1)) m' outcome) :
      Ends (.body body position) m outcome
  | jump {body : Body} {position target : Nat} {m m' : Machine} {inst : Instruction}
      {offset : UInt32} {outcome : Outcome Unit} (hg : body.get? position = some inst)
      (hs : Exec.step inst m = .ok (.jump offset) m') (ht : body.indexOf? offset = some target)
      (hr : Ends (.body body target) m' outcome) : Ends (.body body position) m outcome
  | astray {body : Body} {position : Nat} {m m' : Machine} {inst : Instruction} {offset : UInt32}
      (hg : body.get? position = some inst) (hs : Exec.step inst m = .ok (.jump offset) m')
      (ht : body.indexOf? offset = none) :
      Ends (.body body position) m (.error (.badBranchTarget offset) m')
  | calleeFaulted {body : Body} {position : Nat} {m m₁ m' : Machine} {inst : Instruction}
      {id : MethodId} {arguments : List Value} {created : Option Value} {fault : Fault}
      (hg : body.get? position = some inst)
      (hs : Exec.step inst m = .ok (.call id arguments created) m₁)
      (hc : Ends (.call id arguments) m₁ (.error fault m')) :
      Ends (.body body position) m (.error fault m')
  | notResumed {body : Body} {position : Nat} {m m₁ m₂ m' : Machine} {inst : Instruction}
      {id : MethodId} {arguments : List Value} {result created : Option Value} {fault : Fault}
      (hg : body.get? position = some inst)
      (hs : Exec.step inst m = .ok (.call id arguments created) m₁)
      (hc : Ends (.call id arguments) m₁ (.ok result m₂))
      (hp : Exec.pushResults result created m₂ = .error fault m') :
      Ends (.body body position) m (.error fault m')
  | resumed {body : Body} {position : Nat} {m m₁ m₂ m' : Machine} {inst : Instruction}
      {id : MethodId} {arguments : List Value} {result created : Option Value}
      {outcome : Outcome Unit} (hg : body.get? position = some inst)
      (hs : Exec.step inst m = .ok (.call id arguments created) m₁)
      (hc : Ends (.call id arguments) m₁ (.ok result m₂))
      (hp : Exec.pushResults result created m₂ = .ok () m')
      (hr : Ends (.body body (position + 1)) m' outcome) : Ends (.body body position) m outcome

/-- A run of the work, begun on a machine, passes another one, whether it ends or not. -/
inductive Passes : Work → Machine → Machine → Prop
  | start {work : Work} {m : Machine} : Passes work m m
  | ended {work : Work} {m : Machine} {outcome : Outcome work.Result} (h : Ends work m outcome) :
      Passes work m outcome.machine
  | entered {id : MethodId} {arguments : List Value} {m m' : Machine}
      (he : Exec.enter id arguments m = .ok () m') : Passes (.call id arguments) m m'
  | native {id : MethodId} {arguments : List Value} {m m' : Machine}
      (he : Exec.enter id arguments m = .ok () m') (hn : (m'.catalog.method id).isNative = true) :
      Passes (.call id arguments) m (Outcome.machine (Exec.runNative id m'))
  | interpreted {id : MethodId} {arguments : List Value} {m m' m'' : Machine}
      (he : Exec.enter id arguments m = .ok () m') (hn : (m'.catalog.method id).isNative = false)
      (hb : Passes (.body (m'.catalog.method id).body 0) m' m'') :
      Passes (.call id arguments) m m''
  | evaluated {body : Body} {position : Nat} {m : Machine} {inst : Instruction}
      (hg : body.get? position = some inst) :
      Passes (.body body position) m (Outcome.machine (Exec.step inst m))
  | next {body : Body} {position : Nat} {m m' m'' : Machine} {inst : Instruction}
      (hg : body.get? position = some inst) (hs : Exec.step inst m = .ok .next m')
      (hr : Passes (.body body (position + 1)) m' m'') : Passes (.body body position) m m''
  | jump {body : Body} {position target : Nat} {m m' m'' : Machine} {inst : Instruction}
      {offset : UInt32} (hg : body.get? position = some inst)
      (hs : Exec.step inst m = .ok (.jump offset) m') (ht : body.indexOf? offset = some target)
      (hr : Passes (.body body target) m' m'') : Passes (.body body position) m m''
  | callee {body : Body} {position : Nat} {m m' m'' : Machine} {inst : Instruction} {id : MethodId}
      {arguments : List Value} {created : Option Value} (hg : body.get? position = some inst)
      (hs : Exec.step inst m = .ok (.call id arguments created) m')
      (hc : Passes (.call id arguments) m' m'') : Passes (.body body position) m m''
  | returned {body : Body} {position : Nat} {m m₁ m₂ : Machine} {inst : Instruction}
      {id : MethodId} {arguments : List Value} {result created : Option Value}
      (hg : body.get? position = some inst)
      (hs : Exec.step inst m = .ok (.call id arguments created) m₁)
      (hc : Ends (.call id arguments) m₁ (.ok result m₂)) :
      Passes (.body body position) m (Outcome.machine (Exec.pushResults result created m₂))
  | resumed {body : Body} {position : Nat} {m m₁ m₂ m' m'' : Machine} {inst : Instruction}
      {id : MethodId} {arguments : List Value} {result created : Option Value}
      (hg : body.get? position = some inst)
      (hs : Exec.step inst m = .ok (.call id arguments created) m₁)
      (hc : Ends (.call id arguments) m₁ (.ok result m₂))
      (hp : Exec.pushResults result created m₂ = .ok () m')
      (hr : Passes (.body body (position + 1)) m' m'') : Passes (.body body position) m m''

/-! ## Runs with fuel -/

/-- A call that ends does so by `Ends` if the bodies that it runs do. -/
theorem ends_of_callWith {run : Body → Machine → Option (Outcome Unit)}
    (hrun : ∀ body m outcome, run body m = some outcome → Ends (.body body 0) m outcome)
    {id : MethodId} {arguments : List Value} {m : Machine} {outcome : Outcome (Option Value)}
    (h : callWith run id arguments m = some outcome) : Ends (.call id arguments) m outcome := by
  unfold callWith at h
  split at h
  · rename_i he
    cases h
    exact .refused he
  · rename_i m' he
    obtain ⟨worked, hw, rfl⟩ := Option.map_eq_some_iff.mp h
    split at hw
    · rename_i hn
      cases hw
      exact .native he hn
    · rename_i hn
      exact .interpreted he (by simpa using hn) (hrun _ _ _ hw)

/-- A body that ends with some fuel ends. -/
theorem ends_of_runBody {fuel : Nat} {body : Body} {position : Nat} {m : Machine}
    {outcome : Outcome Unit} (h : runBody fuel body position m = some outcome) :
    Ends (.body body position) m outcome := by
  induction fuel generalizing body position m outcome with
  | zero => cases h
  | succ fuel ih =>
    unfold runBody at h
    split at h
    · rename_i hg
      cases h
      exact .passed hg
    · rename_i inst hg
      split at h
      · rename_i hs
        cases h
        exact .faulted hg hs
      · rename_i hs
        cases h
        exact .left hg hs
      · rename_i hs
        exact .next hg hs (ih h)
      · rename_i hs
        split at h
        · rename_i ht
          exact .jump hg hs ht (ih h)
        · rename_i ht
          cases h
          exact .astray hg hs ht
      · rename_i hs
        split at h
        · cases h
        · rename_i hc
          cases h
          exact .calleeFaulted hg hs (ends_of_callWith (fun _ _ _ => ih) hc)
        · rename_i hc
          have hends := ends_of_callWith (fun _ _ _ => ih) hc
          split at h
          · rename_i hp
            cases h
            exact .notResumed hg hs hends hp
          · rename_i hp
            exact .resumed hg hs hends hp (ih h)

/-- A call that ends with some fuel ends. -/
theorem ends_of_call {fuel : Nat} {id : MethodId} {arguments : List Value} {m : Machine}
    {outcome : Outcome (Option Value)} (h : m.call fuel id arguments = some outcome) :
    Ends (.call id arguments) m outcome :=
  ends_of_callWith (fun _ _ _ => ends_of_runBody) h

end Machine

end ManagedCode
