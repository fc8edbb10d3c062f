import ManagedCode.Proofs.Execution.CallStack
import ManagedCode.Proofs.Execution.Safety
import ManagedCode.Proofs.Renaming.Natives

/-!
# Runs in lockstep

Two machines are parallel in a relation between them that survives every change that a computation
makes on both. A relation with this property need only be checked on the primitives. If the machines
in it also take arguments in the same order, it survives every step of an instruction, and if they
have the same bodies as well, they run in lockstep: as long as the first run does not end with a
fault that is excused, the second one takes the same steps and ends in the same way, up to renaming.
-/

namespace ManagedCode

variable {excused : Fault → Prop} {L : Renaming → Machine → Machine → Prop}

/-- The second outcome follows the first one: unless the first is an excused fault, the second is
there, and both agree up to a renaming that adds names to the given one. -/
inductive Followed {α : Type} (excused : Fault → Prop) (L : Renaming → Machine → Machine → Prop)
    (ρ : Renaming) (R : Renaming → α → α → Prop) : Outcome α → Option (Outcome α) → Prop
  | excused {fault : Fault} {m : Machine} {second : Option (Outcome α)} (h : excused fault) :
      Followed excused L ρ R (.error fault m) second
  | ok {ρ' : Renaming} {a b : α} {m m' : Machine} (hle : ρ ≤ ρ') (hm : L ρ' m m')
      (h : R ρ' a b) : Followed excused L ρ R (.ok a m) (some (.ok b m'))
  | fault {ρ' : Renaming} {f g : Fault} {m m' : Machine} (hle : ρ ≤ ρ') (hm : L ρ' m m')
      (h : f.Alike ρ' g) : Followed excused L ρ R (.error f m) (some (.error g m'))

section

variable {α β : Type} {ρ ρ' : Renaming} {R : Renaming → α → α → Prop}
  {S : Renaming → β → β → Prop}

/-- What is followed under more names is followed under those that were there before. -/
theorem Followed.after {first : Outcome α} {second : Option (Outcome α)} (hle : ρ ≤ ρ')
    (h : Followed excused L ρ' R first second) : Followed excused L ρ R first second := by
  cases h with
  | excused h => exact .excused h
  | ok hle' hm h => exact .ok (hle.trans hle') hm h
  | fault hle' hm h => exact .fault (hle.trans hle') hm h

/-- Computations in sequence are followed if each is. -/
theorem Followed.bind {x y : Exec α} {f g : α → Exec β} {m m' : Machine}
    (hx : Followed excused L ρ R (x m) (some (y m')))
    (hf : ∀ ρ', ρ ≤ ρ' → ∀ a b m m', L ρ' m m' → R ρ' a b →
      Followed excused L ρ' S (f a m) (some (g b m'))) :
    Followed excused L ρ S ((x >>= f) m) (some ((y >>= g) m')) := by
  generalize hxm : x m = first, hym : some (y m') = second at hx
  cases hx with
  | excused h =>
    rw [Exec.bind_of_error f hxm]
    exact .excused h
  | ok hle hm h =>
    rw [Exec.bind_of_ok f hxm, Exec.bind_of_ok g (Option.some.inj hym)]
    exact (hf _ hle _ _ _ _ hm h).after hle
  | fault hle hm h =>
    rw [Exec.bind_of_error f hxm, Exec.bind_of_error g (Option.some.inj hym)]
    exact .fault hle hm h

/-- Answers to mirrored questions leave both machines as they are. -/
theorem Followed.query {f g : Machine → Except Fault α} {m m' : Machine} (hm : L ρ m m')
    (h : Answered ρ (R ρ) (f m) (g m')) :
    Followed excused L ρ R (Exec.query f m) (some (Exec.query g m')) := by
  rw [Exec.query_apply, Exec.query_apply]
  generalize f m = x, g m' = y at h
  cases h with
  | ok h => exact .ok le_rfl hm h
  | fault h => exact .fault le_rfl hm h

end

/-- Machines in the relation mirror each other, and the relation survives every change that is made
on both. -/
structure Parallel (excused : Fault → Prop) (L : Renaming → Machine → Machine → Prop) :
    Prop where
  mirrors {ρ : Renaming} {m m' : Machine} (hm : L ρ m m') : m.Mirrors ρ m'
  /-- The running frames change, but not the caller in them. -/
  modifyTop {ρ : Renaming} {m m' : Machine} {f g : Frame → Frame} (hm : L ρ m m')
    (h : ∀ a b, m.calls.top? = some a → m'.calls.top? = some b →
      (f a).Alike ρ (g b) ∧ (f a).caller = a.caller ∧ (g b).caller = b.caller) :
    L ρ { m with calls := m.calls.modifyTop f } { m' with calls := m'.calls.modifyTop g }
  store {ρ : Renaming} {m m' : Machine} {a b : Object} (hm : L ρ m m') (h : a.Alike ρ b) :
    Followed excused L ρ Named (Exec.store a m) (some (Exec.store b m'))
  checkLength {ρ : Renaming} {m m' : Machine} (length : Int) (hm : L ρ m m') :
    Followed excused L ρ Same (Exec.query (·.checkArrayLength length) m)
      (some (Exec.query (·.checkArrayLength length) m'))
  modifyObject {ρ : Renaming} {m m' : Machine} {handle other : Handle} {f g : Object → Object}
    (hm : L ρ m m') (hh : Named ρ handle other) (h : ∀ a b, a.Alike ρ b → (f a).Alike ρ (g b)) :
    L ρ { m with heap := m.heap.modify handle f } { m' with heap := m'.heap.modify other g }
  setStatic {ρ : Renaming} {m m' : Machine} {v w : Value} (type : TypeId) (name : String)
    (hm : L ρ m m') (h : v.Alike ρ w) :
    L ρ { m with statics := m.statics.set type name v }
      { m' with statics := m'.statics.set type name w }
  write {ρ : Renaming} {m m' : Machine} (text : String) (hm : L ρ m m') :
    L ρ { m with output := m.output ++ text } { m' with output := m'.output ++ text }
  setFiles {ρ : Renaming} {m m' : Machine} (files : Files) (hm : L ρ m m') :
    L ρ { m with files } { m' with files }
  enter {ρ : Renaming} {m m' : Machine} {vs ws : List Value} (id : MethodId) (hm : L ρ m m')
    (h : Values.Alike ρ vs ws) :
    Followed excused L ρ Same (Exec.enter id vs m) (some (Exec.enter id ws m'))
  /-- A frame is left for the one from which it was entered. -/
  exitFrame {ρ₀ ρ : Renaming} {m₀ m₀' m m' : Machine} (hbefore : L ρ₀ m₀ m₀') (hm : L ρ m m')
    (hd : m.calls.depth = m₀.calls.depth + 1) (hd' : m'.calls.depth = m₀'.calls.depth + 1) :
    L ρ m.exitFrame m'.exitFrame
  /-- A result is taken from the frames that were left last. -/
  popLastExited {ρ : Renaming} {m m' : Machine} {frame frame' : Frame} {v w : Value}
    (hm : L ρ m m') (hx : m.calls.lastExited = some (frame.push v))
    (hy : m'.calls.lastExited = some (frame'.push w)) :
    L ρ { m with calls := { m.calls with lastExited := some frame } }
      { m' with calls := { m'.calls with lastExited := some frame' } }

namespace Parallel

/-! ## Computations -/

variable {ρ : Renaming} {m m' : Machine}

/-- Frames that are alike are changed in the same way. -/
theorem changeTop (hl : Parallel excused L) (hm : L ρ m m') {f g : Frame → Frame}
    (h : ∀ a b, a.Alike ρ b → (f a).Alike ρ (g b)) (hf : ∀ a, (f a).caller = a.caller)
    (hg : ∀ b, (g b).caller = b.caller) :
    L ρ { m with calls := m.calls.modifyTop f } { m' with calls := m'.calls.modifyTop g } := by
  refine hl.modifyTop hm fun a b ha hb => ⟨?_, hf a, hg b⟩
  have ht := (hl.mirrors hm).top
  rw [ha, hb] at ht
  cases ht with
  | some hab => exact h a b hab

/-- A pop is followed by one of a value that is alike. -/
theorem pop (hl : Parallel excused L) (hm : L ρ m m') :
    Followed excused L ρ Value.Alike (Exec.pop m) (some (Exec.pop m')) := by
  have ht := (hl.mirrors hm).top
  unfold Exec.pop
  rw [(hl.mirrors hm).runningMethod_eq]
  generalize hx : m.calls.top? = x, hy : m'.calls.top? = y at ht
  cases ht with
  | none => exact .fault le_rfl hm (.same rfl)
  | @some a b hf =>
    have hp := hf.pop?
    simp only [Option.bind_some]
    generalize ha : a.pop? = popped, hb : b.pop? = popped' at hp
    cases hp with
    | none => exact .fault le_rfl hm (.same rfl)
    | some hp =>
      refine .ok le_rfl (hl.modifyTop hm fun top top' ht ht' => ⟨hp.2, ?_, ?_⟩) hp.1
      · obtain rfl : a = top := Option.some.inj (hx.symm.trans ht)
        rw [Frame.pop?_eq_some ha]
        rfl
      · obtain rfl : b = top' := Option.some.inj (hy.symm.trans ht')
        rw [Frame.pop?_eq_some hb]
        rfl

/-- Values that are taken are followed by values that are alike. -/
theorem takeTop (hl : Parallel excused L) (count : Nat) (hm : L ρ m m') :
    Followed excused L ρ Values.Alike (Exec.takeTop count m) (some (Exec.takeTop count m')) := by
  have ht := (hl.mirrors hm).top
  unfold Exec.takeTop
  rw [(hl.mirrors hm).runningMethod_eq]
  generalize m.calls.top? = x, m'.calls.top? = y at ht
  cases ht with
  | none =>
    dsimp only
    split
    · exact .ok le_rfl hm .nil
    · exact .fault le_rfl hm (.same rfl)
  | some hf =>
    dsimp only
    rw [hf.stack.length_eq]
    split
    · exact .fault le_rfl hm (.same rfl)
    · have hdrop : ∀ a b, Frame.Alike ρ a b →
          Frame.Alike ρ { a with stack := a.stack.drop count }
            { b with stack := b.stack.drop count } :=
        fun _ _ h => h.withStack (List.forall₂_drop count h.stack)
      exact .ok le_rfl (hl.changeTop hm hdrop (fun _ => rfl) fun _ => rfl)
        (List.forall₂_take count hf.stack)

/-- A push is followed by one of a value that is alike. -/
theorem push (hl : Parallel excused L) {v w : Value} (hv : v.Alike ρ w) (hm : L ρ m m') :
    Followed excused L ρ Same (Exec.push v m) (some (Exec.push w m')) := by
  have ht := (hl.mirrors hm).top
  unfold Exec.push
  generalize m.calls.top? = x, m'.calls.top? = y at ht
  cases ht with
  | none => exact .fault le_rfl hm (.same rfl)
  | some hf =>
    exact .ok le_rfl (hl.changeTop hm (fun _ _ h => h.push hv) (fun _ => rfl) fun _ => rfl) rfl

/-- A value slipped beneath others is followed by one that is alike. -/
theorem insertBeneath (hl : Parallel excused L) {v w : Value} (depth : Nat) (method : String)
    (hv : v.Alike ρ w) (hm : L ρ m m') :
    Followed excused L ρ Same (Exec.insertBeneath depth v method m)
      (some (Exec.insertBeneath depth w method m')) := by
  have ht := (hl.mirrors hm).top
  unfold Exec.insertBeneath
  generalize m.calls.top? = x, m'.calls.top? = y at ht
  cases ht with
  | none => exact .fault le_rfl hm (.same rfl)
  | some hf =>
    dsimp only
    rw [hf.stack.length_eq]
    split
    · exact .fault le_rfl hm (.same rfl)
    · refine .ok le_rfl (hl.changeTop hm (fun a b h => h.withStack ?_) (fun _ => rfl) fun _ => rfl)
        rfl
      exact List.rel_append (List.forall₂_take depth h.stack)
        (.cons hv (List.forall₂_drop depth h.stack))

/-- A file that is written is followed by the same one. -/
theorem writeFile (hl : Parallel excused L) (path text : String) (hm : L ρ m m') :
    Followed excused L ρ Same (Exec.writeFile path text m)
      (some (Exec.writeFile path text m')) := by
  unfold Exec.writeFile
  rw [(hl.mirrors hm).files]
  split
  · exact .ok le_rfl (hl.setFiles _ hm) rfl
  · exact .fault le_rfl hm (.same rfl)

/-- Paired computations on machines in lockstep follow each other. -/
theorem paired (hl : Parallel excused L) {α : Type} {x y : Exec α}
    {R : Renaming → α → α → Prop} (h : Exec.Paired ρ x y R) (hm : L ρ m m') :
    Followed excused L ρ R (x m) (some (y m')) := by
  induction h generalizing m m' with
  | done h => exact .ok le_rfl hm h
  | fault h => exact .fault le_rfl hm h
  | query h => exact .query hm (h m m' (hl.mirrors hm))
  | checkLength length => exact hl.checkLength length hm
  | bind _ _ ihx ihf =>
    exact (ihx hm).bind fun ρ' hle a b _ _ hm' hab => ihf ρ' hle a b hab hm'
  | pop => exact hl.pop hm
  | takeTop count => exact hl.takeTop count hm
  | push hv => exact hl.push hv hm
  | insertBeneath depth method hv => exact hl.insertBeneath depth method hv hm
  | modifyTop h hf hg => exact .ok le_rfl (hl.changeTop hm h hf hg) rfl
  | store h => exact hl.store hm h
  | modifyObject hh h => exact .ok le_rfl (hl.modifyObject hm hh h) rfl
  | setStatic type name h => exact .ok le_rfl (hl.setStatic type name hm h) rfl
  | write text => exact .ok le_rfl (hl.write text hm) rfl
  | writeFile path text => exact hl.writeFile path text hm

/-! ## Results -/

/-- A result is taken from frames that are alike. -/
theorem takeResult (hl : Parallel excused L) (id : MethodId) (hm : L ρ m m')
    (hlast : Option.Rel (Frame.Alike ρ) m.calls.lastExited m'.calls.lastExited) :
    Followed excused L ρ (fun ρ => Option.Rel (Value.Alike ρ)) (Exec.takeResult id m)
      (some (Exec.takeResult id m')) := by
  have hcatalog := (hl.mirrors hm).catalog
  unfold Exec.takeResult
  rw [(hcatalog.method id).returnsValue, hcatalog.methodName]
  split
  · generalize hx : m.calls.lastExited = x, hy : m'.calls.lastExited = y at hlast
    cases hlast with
    | none => exact .fault le_rfl hm (.same rfl)
    | @some a b hf =>
      have hp := hf.pop?
      simp only [Option.bind_some]
      generalize ha : a.pop? = popped, hb : b.pop? = popped' at hp
      cases hp with
      | none => exact .fault le_rfl hm (.same rfl)
      | some hp =>
        rw [Frame.pop?_eq_some ha] at hx
        rw [Frame.pop?_eq_some hb] at hy
        exact .ok le_rfl (hl.popLastExited hm hx hy) (.some hp.1)
  · exact .ok le_rfl hm .none

private theorem frames_ne_nil {n : Nat} (h : m.calls.depth = n + 1) : m.calls.frames ≠ [] := by
  intro hnil
  rw [CallStack.depth, hnil] at h
  cases h

/-- Work in the frames of two calls that was followed is still followed when the frames are left. -/
theorem leave (hl : Parallel excused L) (id : MethodId) {ρ₀ : Renaming} {m₀ m₀' : Machine}
    (hbefore : L ρ₀ m₀ m₀') {worked : Outcome Unit} {second : Option (Outcome Unit)}
    (hw : Followed excused L ρ Same worked second)
    (hd : worked.machine.calls.depth = m₀.calls.depth + 1)
    (hd' : ∀ outcome ∈ second, outcome.machine.calls.depth = m₀'.calls.depth + 1) :
    Followed excused L ρ (fun ρ => Option.Rel (Value.Alike ρ)) (Machine.leave id worked)
      (second.map (Machine.leave id)) := by
  cases hw with
  | excused h => exact .excused h
  | fault hle hm h => exact .fault hle (hl.exitFrame hbefore hm hd (hd' _ rfl)) h
  | @ok ρ' _ _ m m' hle hm _ =>
    have hdepth : m.calls.depth = m₀.calls.depth + 1 := hd
    have hdepth' : m'.calls.depth = m₀'.calls.depth + 1 := hd' _ rfl
    refine (hl.takeResult id (hl.exitFrame hbefore hm hdepth hdepth') ?_).after hle
    -- The frames that are left are the running ones, which the machines mirror.
    rw [Machine.lastExited_exitFrame (frames_ne_nil hdepth),
      Machine.lastExited_exitFrame (frames_ne_nil hdepth')]
    exact (hl.mirrors hm).top

end Parallel

/-! ## Steps -/

/-- Machines in the relation also take arguments in the same order. -/
structure Stepwise (excused : Fault → Prop) (L : Renaming → Machine → Machine → Prop) : Prop
    extends Parallel excused L where
  argumentOrder {ρ : Renaming} {m m' : Machine} (hm : L ρ m m') :
    m.options.argumentOrder = m'.options.argumentOrder

namespace Stepwise

variable {ρ : Renaming} {m m' : Machine}

/-- Arguments that are taken are followed by arguments that are alike. -/
theorem takeArguments (hl : Stepwise excused L) (id : MethodId) (hm : L ρ m m') :
    Followed excused L ρ Values.Alike (Exec.takeArguments id m)
      (some (Exec.takeArguments id m')) := by
  refine (hl.paired (Exec.paired_method id) hm).bind fun _ _ method method' _ _ hm hmethod => ?_
  rw [hmethod.argumentCount, hmethod.isStatic, hmethod.declaringType]
  refine (hl.takeTop _ hm).bind fun _ _ vs ws m m' hm hv => .query hm ?_
  rw [hl.argumentOrder hm, hv.length_eq]
  split
  · exact .ok (List.rel_reverse hv)
  · exact .ok ((hl.mirrors hm).orderArguments _ hv)

/-- An instruction is followed by the same one, with values that are alike. -/
theorem step (hl : Stepwise excused L) (inst : Instruction) (hm : L ρ m m') :
    Followed excused L ρ Flow.Alike (Exec.step inst m) (some (Exec.step inst m')) := by
  cases hc : Exec.callee? inst.task with
  | none =>
    have hpaired : Exec.Paired ρ (Exec.step inst) (Exec.step inst) Flow.Alike :=
      (Exec.paired_step hc).imp fun ρ' _ _ h => h.1 ▸ h.2.alike ρ'
    exact hl.paired hpaired hm
  | some find =>
    rw [Exec.step_of_callee hc]
    refine (hl.paired (Exec.paired_callee hc) hm).bind ?_
    rintro _ _ ⟨id, created⟩ ⟨_, created'⟩ m m' hm ⟨rfl, hcreated⟩
    refine (hl.takeArguments id hm).bind fun _ hle _ _ _ _ hm hv => ?_
    exact .ok le_rfl hm (.call id hv (Value.Alike.option_mono hle hcreated))

end Stepwise

/-! ## Runs -/

/-- Machines in the relation also have the same bodies. -/
structure Lockstep (excused : Fault → Prop) (L : Renaming → Machine → Machine → Prop) : Prop
    extends Stepwise excused L where
  catalog {ρ : Renaming} {m m' : Machine} (hm : L ρ m m') : m.catalog = m'.catalog

namespace Lockstep

variable {ρ : Renaming} {m m' : Machine}

/-- A call is followed if the bodies that it runs are. -/
theorem callWith (hl : Lockstep excused L) {run : Body → Machine → Option (Outcome Unit)}
    {id : MethodId} {vs ws : List Value} (hm : L ρ m m') (hv : Values.Alike ρ vs ws)
    {outcome : Outcome (Option Value)} (h : Machine.callWith run id vs m = some outcome)
    (hrun : ∀ body ρ m m' outcome, L ρ m m' → run body m = some outcome →
      Followed excused L ρ Same outcome (run body m'))
    (hsame : ∀ body m outcome, run body m = some outcome → m.SameCallers outcome.machine) :
    Followed excused L ρ (fun ρ => Option.Rel (Value.Alike ρ)) outcome
      (Machine.callWith run id ws m') := by
  have hentered := hl.enter id hm hv
  unfold Machine.callWith at h ⊢
  generalize he : Exec.enter id vs m = first, he' : Exec.enter id ws m' = second at h hentered ⊢
  cases hentered with
  | excused hf =>
    cases h
    exact .excused hf
  | fault hle hm hf =>
    cases h
    exact .fault hle hm hf
  | @ok ρ₁ _ _ m₁ m₁' hle hm₁ _ =>
    have hd : m₁.calls.depth = m.calls.depth + 1 := by
      rw [(Machine.enter_eq_ok he).2]
      rfl
    have hd' : m₁'.calls.depth = m'.calls.depth + 1 := by
      rw [(Machine.enter_eq_ok he').2]
      rfl
    obtain ⟨worked, hworked, rfl⟩ := Option.map_eq_some_iff.mp h
    dsimp only
    rw [← hl.catalog hm₁]
    refine Followed.after hle ?_
    cases hn : (m₁.catalog.method id).isNative with
    | true =>
      simp only [hn, if_true, Option.some.injEq] at hworked ⊢
      subst hworked
      refine hl.leave id hm (hl.paired (Exec.paired_runNative id) hm₁) ?_ ?_
      · rw [(Machine.sameCallers_runNative id m₁).depth, hd]
      · rintro _ ⟨⟩
        rw [(Machine.sameCallers_runNative id m₁').depth, hd']
    | false =>
      simp only [hn, Bool.false_eq_true, if_false] at hworked ⊢
      refine hl.leave id hm (hrun _ _ _ _ _ hm₁ hworked) ?_ fun other ho => ?_
      · rw [(hsame _ _ _ hworked).depth, hd]
      · rw [(hsame _ _ _ ho).depth, hd']

private theorem sameCallers_of_runBody {fuel : Nat} (body : Body) (m : Machine)
    (outcome : Outcome Unit) (h : Machine.runBody fuel body 0 m = some outcome) :
    m.SameCallers outcome.machine :=
  (Machine.ends_of_runBody h).keeps

/-- The results of calls are pushed, and what follows is followed. -/
private theorem resume (hl : Lockstep excused L) {result result' created created' : Option Value}
    {rest : Machine → Option (Outcome Unit)}
    (hrest : ∀ ρ m m' outcome, L ρ m m' → rest m = some outcome →
      Followed excused L ρ Same outcome (rest m'))
    (hm : L ρ m m') (hr : Option.Rel (Value.Alike ρ) result result')
    (hc : Option.Rel (Value.Alike ρ) created created') {outcome : Outcome Unit}
    (h : (match Exec.pushResults result created m with
      | .error fault m => some (.error fault m)
      | .ok _ m => rest m) = some outcome) :
    Followed excused L ρ Same outcome
      (match Exec.pushResults result' created' m' with
      | .error fault m => some (.error fault m)
      | .ok _ m => rest m) := by
  have hpushed := hl.paired (Exec.paired_pushResults hr hc) hm
  generalize Exec.pushResults result created m = first at h hpushed
  generalize Exec.pushResults result' created' m' = second at hpushed
  cases hpushed with
  | excused hf =>
    cases h
    exact .excused hf
  | fault hle hm hf =>
    cases h
    exact .fault hle hm hf
  | ok hle hm _ => exact (hrest _ _ _ _ hm h).after hle

/-- The rest of a body is followed, however it ends. -/
theorem runBody (hl : Lockstep excused L) {fuel : Nat} {body : Body} {position : Nat}
    (hm : L ρ m m') {outcome : Outcome Unit}
    (h : Machine.runBody fuel body position m = some outcome) :
    Followed excused L ρ Same outcome (Machine.runBody fuel body position m') := by
  -- Both runs have the same fuel. They stay in lockstep, so neither runs out before the other.
  induction fuel generalizing ρ m m' body position outcome with
  | zero => cases h
  | succ fuel ih =>
    unfold Machine.runBody at h ⊢
    split at h
    · cases h
      exact .ok le_rfl hm rfl
    · rename_i inst _
      have hstep := hl.step inst hm
      generalize Exec.step inst m = first at h hstep
      generalize Exec.step inst m' = second at hstep
      cases hstep with
      | excused hf =>
        cases h
        exact .excused hf
      | fault hle hm hf =>
        cases h
        exact .fault hle hm hf
      | @ok ρ₁ _ _ m₁ m₁' hle hm₁ hflow =>
        refine Followed.after hle ?_
        cases hflow with
        | next => exact ih hm₁ h
        | leave =>
          cases h
          exact .ok le_rfl hm₁ rfl
        | jump target =>
          dsimp only at h ⊢
          split at h
          · exact ih hm₁ h
          · cases h
            exact .fault le_rfl hm₁ (.same rfl)
        | @call id vs ws created created' hv hc =>
          dsimp only at h ⊢
          generalize hcall : Machine.callWith (fun callee m => Machine.runBody fuel callee 0 m) id
            vs m₁ = called at h
          cases called with
          | none => cases h
          | some called =>
            have hcalled :=
              hl.callWith hm₁ hv hcall (fun _ _ _ _ _ hm h => ih hm h) sameCallers_of_runBody
            generalize Machine.callWith (fun callee m => Machine.runBody fuel callee 0 m) id
              ws m₁' = other at hcalled
            cases hcalled with
            | excused hf =>
              cases h
              exact .excused hf
            | fault hle hm hf =>
              cases h
              exact .fault hle hm hf
            | ok hle₂ hm₂ hr =>
              have hcreated := Value.Alike.option_mono hle₂ hc
              exact (hl.resume (fun _ _ _ _ hm h => ih hm h) hm₂ hr hcreated h).after hle₂

/-- A call is followed, however it ends. -/
theorem call (hl : Lockstep excused L) {fuel : Nat} {id : MethodId} {vs ws : List Value}
    (hm : L ρ m m') (hv : Values.Alike ρ vs ws) {outcome : Outcome (Option Value)}
    (h : m.call fuel id vs = some outcome) :
    Followed excused L ρ (fun ρ => Option.Rel (Value.Alike ρ)) outcome (m'.call fuel id ws) :=
  hl.callWith hm hv h (fun _ _ _ _ _ hm h => hl.runBody hm h) sameCallers_of_runBody

/-- A program is followed, however it ends. -/
theorem start (hl : Lockstep excused L) {fuel : Nat} {texts : List String} (hm : L ρ m m')
    {outcome : Outcome (Option Value)} (h : m.start fuel texts = some outcome) :
    Followed excused L ρ (fun ρ => Option.Rel (Value.Alike ρ)) outcome (m'.start fuel texts) := by
  unfold Machine.start at h ⊢
  rw [← (hl.mirrors hm).catalog.entryPoint?]
  split at h
  · cases h
    exact .fault le_rfl hm (.same rfl)
  · rename_i id _
    have hprepared := hl.paired (Exec.paired_startArguments id texts) hm
    generalize Machine.startArguments id texts m = first at h hprepared
    generalize Machine.startArguments id texts m' = second at hprepared
    cases hprepared with
    | excused hf =>
      cases h
      exact .excused hf
    | fault hle hm hf =>
      cases h
      exact .fault hle hm hf
    | ok hle hm hv => exact (hl.call hm hv h).after hle

end Lockstep

end ManagedCode
