import ManagedCode.Proofs.Execution.Invariants
import ManagedCode.Proofs.Renaming.Guesses

/-!
# Properties along a run

A run evaluates one instruction after another, each on the machine that the ones before it left. A
stable property that holds where the run begins still holds at an instruction if all those before it
kept it, and it holds where the run ends if all of them did. So what one instruction may do to the
property is all that has to be known of it.
-/

namespace ManagedCode

namespace Machine

/-- The evaluation of the instruction on the machine keeps the property. -/
def Spares (P : Machine → Prop) (site : Instruction × Machine) : Prop :=
  P site.2 → P (Outcome.machine (Exec.step site.1 site.2))

/-- The property holds wherever all that was evaluated before kept it. -/
def Lasts (P : Machine → Prop) (sites : List (Instruction × Machine)) : Prop :=
  ∀ before site after, sites = before ++ site :: after → (∀ earlier ∈ before, Spares P earlier) →
    P site.2

section Lasting

variable {P : Machine → Prop} {sites more : List (Instruction × Machine)}

/-- A property lasts over no sites. -/
theorem lasts_nil : Lasts P [] := by
  intro before site after h
  simp at h

/-- A property that holds at a site lasts over it and what follows if sparing it is enough. -/
theorem lasts_cons {site : Instruction × Machine} (hp : P site.2)
    (h : Spares P site → Lasts P sites) : Lasts P (site :: sites) := by
  intro before found after hsplit hbefore
  cases before with
  | nil =>
    cases hsplit
    exact hp
  | cons first before =>
    obtain ⟨rfl, hrest⟩ := List.cons.inj hsplit
    obtain ⟨hfirst, hbefore⟩ := List.forall_mem_cons.mp hbefore
    exact h hfirst before found after hrest hbefore

/-- A property that lasts over some sites and then over others lasts over all. -/
theorem Lasts.append (h : Lasts P sites) (hm : (∀ site ∈ sites, Spares P site) → Lasts P more) :
    Lasts P (sites ++ more) := by
  induction sites with
  | nil => exact hm (List.forall_mem_nil _)
  | cons site sites ih =>
    refine lasts_cons (h [] site sites rfl (List.forall_mem_nil _)) fun hsite => ?_
    refine ih (fun before found after hsplit hbefore => ?_) fun hsites => ?_
    · exact h (site :: before) found after (congrArg (site :: ·) hsplit)
        (List.forall_mem_cons.mpr ⟨hsite, hbefore⟩)
    · exact hm (List.forall_mem_cons.mpr ⟨hsite, hsites⟩)

end Lasting

section Stability

variable {P : Machine → Prop} [Stable P]

/-- A call keeps what the instructions that it evaluates keep, if bodies do. -/
theorem Stable.callWith {run : Body → Machine → Option (Outcome Unit)}
    {visit : Body → Machine → List (Instruction × Machine)}
    (hrun : ∀ body m outcome, run body m = some outcome → (∀ site ∈ visit body m, Spares P site) →
      P m → P outcome.machine)
    {method : MethodId} {arguments : List Value} {m : Machine} {outcome : Outcome (Option Value)}
    (h : Machine.callWith run method arguments m = some outcome)
    (hs : ∀ site ∈ sitesWith visit method arguments m, Spares P site) (hm : P m) :
    P outcome.machine := by
  unfold Machine.callWith at h
  unfold sitesWith at hs
  cases he : Exec.enter method arguments m with
  | error fault m' =>
    rw [he] at h
    obtain ⟨rfl, -⟩ := enter_eq_error he
    cases h
    exact hm
  | ok _ m' =>
    rw [he] at h hs
    have hentered : P m' := Stable.enter he hm
    obtain ⟨worked, hw, rfl⟩ := Option.map_eq_some_iff.mp h
    refine Stable.leave method worked ?_
    split at hw
    · cases hw
      exact Exec.retains_runNative method m' hentered
    · rename_i hn
      dsimp only at hs
      rw [if_neg hn] at hs
      exact hrun _ _ _ hw hs hentered

/-- The rest of a body keeps what the instructions keep that it evaluates. -/
theorem Stable.runBody {fuel : Nat} {body : Body} {position : Nat} {m : Machine}
    {outcome : Outcome Unit} (h : Machine.runBody fuel body position m = some outcome)
    (hs : ∀ site ∈ bodySites fuel body position m, Spares P site) (hm : P m) :
    P outcome.machine := by
  -- The run and the list of its sites go through the body in the same way.
  induction fuel generalizing body position m outcome with
  | zero => cases h
  | succ fuel ih =>
    unfold bodySites at hs
    unfold Machine.runBody at h
    cases hg : body.get? position with
    | none =>
      rw [hg] at h
      cases h
      exact hm
    | some inst =>
      rw [hg] at h hs
      dsimp only at h hs
      obtain ⟨hhere, hrest⟩ := List.forall_mem_cons.mp hs
      have hstepped := hhere hm
      cases hstep : Exec.step inst m with
      | error fault m₁ =>
        rw [hstep] at h hstepped
        cases h
        exact hstepped
      | ok flow m₁ =>
        rw [hstep] at h hstepped hrest
        cases flow with
        | next => exact ih h hrest hstepped
        | leave =>
          cases h
          exact hstepped
        | jump target =>
          dsimp only at h hrest
          cases ht : body.indexOf? target with
          | none =>
            rw [ht] at h
            cases h
            exact hstepped
          | some position' =>
            rw [ht] at h hrest
            exact ih h hrest hstepped
        | call callee arguments created =>
          dsimp only at h hrest
          obtain ⟨hcallee, hafter⟩ := List.forall_mem_append.mp hrest
          cases hcall : Machine.callWith (fun callee m => Machine.runBody fuel callee 0 m) callee
              arguments m₁ with
          | none =>
            rw [hcall] at h
            cases h
          | some called =>
            rw [hcall] at h hafter
            have hcalled : P called.machine :=
              Stable.callWith (fun _ _ _ => ih) hcall hcallee hstepped
            cases called with
            | error fault m₂ =>
              cases h
              exact hcalled
            | ok result m₂ =>
              dsimp only at h hafter
              have hpushed := Exec.retains_pushResults result created m₂ hcalled
              cases hresumed : Exec.pushResults result created m₂ with
              | error fault m₃ =>
                rw [hresumed] at h hpushed
                cases h
                exact hpushed
              | ok _ m₃ =>
                rw [hresumed] at h hafter hpushed
                exact ih h hafter hpushed

/-- A stable property lasts over the sites of a call if it does over those of its body. -/
theorem Stable.lasts_sitesWith {visit : Body → Machine → List (Instruction × Machine)}
    (hvisit : ∀ body m, P m → Lasts P (visit body m)) (method : MethodId) (arguments : List Value)
    {m : Machine} (hm : P m) : Lasts P (sitesWith visit method arguments m) := by
  unfold sitesWith
  cases he : Exec.enter method arguments m with
  | error fault m' => exact lasts_nil
  | ok _ m' =>
    dsimp only
    split
    · exact lasts_nil
    · exact hvisit _ _ (Stable.enter he hm)

/-- At the instructions of a body a stable property lasts. -/
theorem Stable.lasts_bodySites (fuel : Nat) (body : Body) (position : Nat) {m : Machine}
    (hm : P m) : Lasts P (bodySites fuel body position m) := by
  induction fuel generalizing body position m with
  | zero => exact lasts_nil
  | succ fuel ih =>
    unfold bodySites
    cases hg : body.get? position with
    | none => exact lasts_nil
    | some inst =>
      refine lasts_cons hm fun hhere => ?_
      have hstepped := hhere hm
      cases hstep : Exec.step inst m with
      | error fault m₁ => exact lasts_nil
      | ok flow m₁ =>
        rw [hstep] at hstepped
        cases flow with
        | next => exact ih body (position + 1) hstepped
        | leave => exact lasts_nil
        | jump target =>
          dsimp only
          cases body.indexOf? target with
          | none => exact lasts_nil
          | some position' => exact ih body position' hstepped
        | call callee arguments created =>
          have hcallee : Lasts P (sitesWith (fun callee m => bodySites fuel callee 0 m) callee
              arguments m₁) :=
            Stable.lasts_sitesWith (fun callee _ => ih callee 0) callee arguments hstepped
          -- The sites behind the call count only if the property was spared within it.
          refine hcallee.append fun hspared => ?_
          cases hcall : Machine.callWith (fun callee m => Machine.runBody fuel callee 0 m) callee
              arguments m₁ with
          | none => exact lasts_nil
          | some called =>
            have hcalled : P called.machine :=
              Stable.callWith (fun _ _ _ => Stable.runBody) hcall hspared hstepped
            cases called with
            | error fault m₂ => exact lasts_nil
            | ok result m₂ =>
              have hpushed := Exec.retains_pushResults result created m₂ hcalled
              dsimp only
              cases hresumed : Exec.pushResults result created m₂ with
              | error fault m₃ => exact lasts_nil
              | ok _ m₃ =>
                rw [hresumed] at hpushed
                exact ih body (position + 1) hpushed

/-- A call that spares a stable property keeps it. -/
theorem Stable.call {fuel : Nat} {method : MethodId} {arguments : List Value} {m : Machine}
    {outcome : Outcome (Option Value)} (h : m.call fuel method arguments = some outcome)
    (hs : ∀ site ∈ m.sites fuel method arguments, Spares P site) (hm : P m) : P outcome.machine :=
  Stable.callWith (fun _ _ _ => Stable.runBody) h hs hm

/-- A stable property lasts over all sites of a call. -/
theorem Stable.lasts_sites (fuel : Nat) (method : MethodId) (arguments : List Value) {m : Machine}
    (hm : P m) : Lasts P (m.sites fuel method arguments) :=
  Stable.lasts_sitesWith (fun body _ => Stable.lasts_bodySites fuel body 0) method arguments hm

end Stability

end Machine

/-! ## Actions -/

namespace Action

open Machine

/-- The instructions that an action evaluates, each with the machine before it. -/
def sites (fuel : Nat) (m : Machine) : Action → List (Instruction × Machine)
  | .start texts =>
    match m.catalog.entryPoint? with
    | none => []
    | some id =>
      match startArguments id texts m with
      | .error _ _ => []
      | .ok arguments m => m.sites fuel id arguments
  | .call id arguments => m.sites fuel id arguments
  | .execute id =>
    match Exec.takeArguments id m with
    | .error _ _ => []
    | .ok arguments m => m.sites fuel id arguments
  | _ => []

variable {P : Machine → Prop} [Stable P]

/-- At the instructions that an action evaluates a stable property lasts. -/
theorem lasts_sites (action : Action) (fuel : Nat) {m : Machine} (hm : P m) :
    Lasts P (action.sites fuel m) := by
  cases action with
  | start texts =>
    rw [sites]
    cases m.catalog.entryPoint? with
    | none => exact lasts_nil
    | some id =>
      have hprepared := retains_startArguments id texts m hm
      dsimp only
      cases hp : startArguments id texts m with
      | error fault m' => exact lasts_nil
      | ok arguments m' =>
        rw [hp] at hprepared
        exact Stable.lasts_sites fuel id arguments hprepared
  | call id arguments => exact Stable.lasts_sites fuel id arguments hm
  | execute id =>
    have htaken := Exec.retains_takeArguments id m hm
    rw [sites]
    cases ht : Exec.takeArguments id m with
    | error fault m' => exact lasts_nil
    | ok arguments m' =>
      rw [ht] at htaken
      exact Stable.lasts_sites fuel id arguments htaken
  | _ => exact lasts_nil

/-- What a program that a host starts keeps. -/
theorem keeps_start {fuel : Nat} {texts : List String} {m : Machine}
    {outcome : Outcome (Option Value)} (h : m.start fuel texts = some outcome)
    (hs : ∀ site ∈ sites fuel m (.start texts), Spares P site) (hm : P m) :
    P outcome.machine := by
  unfold Machine.start at h
  rw [sites] at hs
  cases he : m.catalog.entryPoint? with
  | none =>
    rw [he] at h
    cases h
    exact hm
  | some id =>
    rw [he] at h hs
    dsimp only at h hs
    have hprepared := retains_startArguments id texts m hm
    cases hp : startArguments id texts m with
    | error fault m' =>
      rw [hp] at h hprepared
      cases h
      exact hprepared
    | ok arguments m' =>
      rw [hp] at h hs hprepared
      exact Stable.call h hs hprepared

/-- What a method keeps that is called for the running one. -/
theorem keeps_execute {fuel : Nat} {id : MethodId} {m : Machine}
    {outcome : Outcome (Option Value)} (h : m.execute fuel id = some outcome)
    (hs : ∀ site ∈ sites fuel m (.execute id), Spares P site) (hm : P m) :
    P outcome.machine := by
  unfold Machine.execute at h
  rw [sites] at hs
  have htaken := Exec.retains_takeArguments id m hm
  cases ht : Exec.takeArguments id m with
  | error fault m' =>
    rw [ht] at h htaken
    cases h
    exact htaken
  | ok arguments m' =>
    rw [ht] at h hs htaken
    obtain ⟨ended, hcall, rfl⟩ := Option.map_eq_some_iff.mp h
    have hended := Stable.call hcall hs htaken
    split
    · exact hended
    · split
      · exact Stable.calls _ hended
      · exact hended

omit [Stable P] in
/-- An action loads a module, removes garbage, makes an object for the host or stores a field for
it; any other one keeps the stable properties that the instructions keep which it evaluates. -/
theorem run_cases_stable {action : Action} {fuel : Nat} {m : Machine}
    {outcome : Outcome (List Value)} (hr : action.run fuel m = some outcome) :
    (∃ image, action = .load image ∧ outcome.machine = Outcome.machine (m.load image)) ∨
      (action = .collectGarbage ∧ outcome.machine = m.collectGarbage.2) ∨
      (∃ type, action = .instantiate type ∧
        outcome.machine = Outcome.machine (Exec.instantiate type m)) ∨
      (∃ handle name value, action = .setField handle name value ∧
        outcome.machine = Outcome.machine (Exec.setField handle name value m)) ∨
      ∀ (P : Machine → Prop) [Stable P], (∀ site ∈ action.sites fuel m, Spares P site) →
        P m → P outcome.machine := by
  cases action with
  | load image =>
    cases hr
    exact .inl ⟨image, rfl, machine_given _ _⟩
  | collectGarbage =>
    cases hr
    exact .inr (.inl ⟨rfl, rfl⟩)
  | instantiate type =>
    cases hr
    exact .inr (.inr (.inl ⟨type, rfl, machine_given _ _⟩))
  | setField handle name value =>
    cases hr
    exact .inr (.inr (.inr (.inl ⟨handle, name, value, rfl, machine_given _ _⟩)))
  | start texts =>
    obtain ⟨ended, he, rfl⟩ := Option.map_eq_some_iff.mp hr
    refine .inr (.inr (.inr (.inr fun P _ hs hm => ?_)))
    rw [machine_given]
    exact keeps_start he hs hm
  | call id arguments =>
    obtain ⟨ended, he, rfl⟩ := Option.map_eq_some_iff.mp hr
    refine .inr (.inr (.inr (.inr fun P _ hs hm => ?_)))
    rw [machine_given]
    exact Stable.call he hs hm
  | execute id =>
    obtain ⟨ended, he, rfl⟩ := Option.map_eq_some_iff.mp hr
    refine .inr (.inr (.inr (.inr fun P _ hs hm => ?_)))
    rw [machine_given]
    exact keeps_execute he hs hm
  | allocString text =>
    cases hr
    refine .inr (.inr (.inr (.inr fun P _ _ hm => ?_)))
    rw [machine_given]
    exact Exec.retains_allocString text m hm
  | allocArray elements =>
    cases hr
    refine .inr (.inr (.inr (.inr fun P _ _ hm => ?_)))
    rw [machine_given]
    exact Exec.retains_allocArray elements m hm
  | allocList items =>
    cases hr
    refine .inr (.inr (.inr (.inr fun P _ _ hm => ?_)))
    rw [machine_given]
    exact Exec.retains_allocList items m hm

end Action

end ManagedCode
