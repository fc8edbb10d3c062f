import ManagedCode.Proofs.Execution.Invariants
import ManagedCode.Proofs.Heap.Objects

/-!
# What a program can do to a machine

`Change` lists the ways in which a program changes a machine: it moves on in the call stack, stores
a static field, writes to the console or a file, makes an object of one of four forms, or changes an
object in kind. It has no other way. Everything that a run does is a sequence of such changes, from
the first instruction to any machine that it passes. So a fact about all runs follows from a fact
about one change.
-/

namespace ManagedCode

namespace Machine

/-- One change that a program makes. -/
inductive Change : Machine → Machine → Prop
  | calls (m : Machine) (calls : CallStack) : Change m { m with calls }
  | statics (m : Machine) (statics : Statics) : Change m { m with statics }
  | write (m : Machine) (text : String) : Change m { m with output := m.output ++ text }
  | files (m : Machine) (files : Files) : Change m { m with files }
  | make {m : Machine} {object : Object} (hr : m.heap.isFull = false) (h : m.Makes object) :
      Change m { m with heap := (m.heap.add object).2 }
  | edit {m : Machine} {handle : Handle} {f : Object → Object}
      (h : ∀ object, m.heap.get? handle = some object → object.Keeps (f object)) :
      Change m { m with heap := m.heap.modify handle f }

/-- Changes that a program makes lead from one machine to the other. -/
def Leads : Machine → Machine → Prop := Relation.ReflTransGen Change

/-- No change leads a machine to itself. -/
@[refl] theorem Leads.refl (m : Machine) : m.Leads m := Relation.ReflTransGen.refl

/-- Changes may be made one after the other. -/
theorem Leads.trans {a b c : Machine} (hab : a.Leads b) (hbc : b.Leads c) : a.Leads c :=
  Relation.ReflTransGen.trans hab hbc

/-- A single change leads to the machine that it gives. -/
theorem Change.leads {m m' : Machine} (h : Change m m') : m.Leads m' :=
  Relation.ReflTransGen.single h

/-! ## Computations -/

/-- The items of a list may be replaced. -/
theorem leads_setItems {m : Machine} {handle : Handle} {old : Array Value}
    (h : m.listOf handle = .ok old) (items : Array Value) :
    m.Leads (Outcome.machine (Exec.setItems handle items m)) := by
  refine (Change.edit fun object ho => ?_).leads
  obtain ⟨found, hfound, hs⟩ := slot_of_listOf h
  rw [ho] at hfound
  cases hfound
  exact Object.keeps_setSlot hs (.list old items)

/-- An element of an array may be replaced by one in the form of its element kind. -/
theorem leads_setElement (m : Machine) (handle : Handle) (index : Int) (v : Value) :
    m.Leads (Outcome.machine (Exec.setElement handle index v m)) := by
  refine Exec.retained_query_bind (fun ⟨position, stored⟩ _ _ => ?_) (.refl m)
  refine (Change.edit fun object _ => Object.keeps_modifySlot object 0 fun slot => ?_).leads
  cases slot with
  | array elements => exact .array rfl (by simp [Elements.put, Elements.size])
  | value v => exact .refl _
  | text s => exact .refl _
  | list items => exact .refl _

/-- The value of a field may be replaced. -/
theorem leads_setField (m : Machine) (handle : Handle) (name : String) (v : Value) :
    m.Leads (Outcome.machine (Exec.setField handle name v m)) := by
  refine Exec.retained_query_bind (fun ⟨slot, old⟩ hf _ => ?_) (.refl m)
  refine (Change.edit fun object ho => ?_).leads
  obtain ⟨found, hfound, hs⟩ := slot_of_fieldOf hf
  rw [ho] at hfound
  cases hfound
  exact Object.keeps_setSlot hs (.value old v)

/-- What every change keeps, all of them together keep. -/
theorem Leads.keeps {P : Machine → Prop} (hc : ∀ {m m' : Machine}, Change m m' → P m → P m')
    {m m' : Machine} (h : m.Leads m') : P m → P m' := by
  intro hm
  induction h with
  | refl => exact hm
  | tail _ hchange ih => exact hc hchange ih

/-- What every change keeps is stable. -/
theorem Stable.of_change {P : Machine → Prop}
    (hc : ∀ {m m' : Machine}, Change m m' → P m → P m') : Stable P where
  calls calls := hc (.calls _ calls)
  statics statics := hc (.statics _ statics)
  write text := hc (.write _ text)
  files files := hc (.files _ files)
  make hr hm := hc (.make hr hm)
  setItems hlist items := (leads_setItems hlist items).keeps hc
  setElement handle index v := (leads_setElement _ handle index v).keeps hc

instance (start : Machine) : Stable start.Leads := .of_change fun hc h => h.trans hc.leads

end Machine

namespace Exec

open Machine

/-- The computation does nothing but changes that a program can make, also when it faults. -/
def Changes {α : Type} (x : Exec α) : Prop := ∀ m : Machine, m.Leads (Outcome.machine (x m))

/-- What keeps every machine that changes lead to, is made of changes. -/
theorem Changes.of_retains {α : Type} {x : Exec α}
    (h : ∀ start : Machine, Retains start.Leads x) : Changes x := fun m => h m m (.refl m)

/-- Taking arguments changes the stack. -/
theorem changes_takeArguments (id : MethodId) : Changes (takeArguments id) :=
  .of_retains fun _ => retains_takeArguments id

/-- Every instruction only makes changes. -/
theorem changes_step (inst : Instruction) : Changes (step inst) :=
  .of_retains fun _ => retains_step fun field _ handle v m h =>
    h.trans (leads_setField m handle field.name v)

/-- A native method makes the changes of its behaviour. -/
theorem changes_runNative (id : MethodId) : Changes (runNative id) :=
  .of_retains fun _ => retains_runNative id

/-- Pushing results changes the stack. -/
theorem changes_pushResults (result created : Option Value) :
    Changes (pushResults result created) :=
  .of_retains fun _ => retains_pushResults result created

/-- What follows from the outcome of a computation being known. -/
theorem Changes.leads {α : Type} {x : Exec α} (hx : Changes x) {m : Machine} {outcome : Outcome α}
    (h : x m = outcome) : m.Leads outcome.machine := h ▸ hx m

end Exec

namespace Machine

/-! ## Runs -/

/-- A program enters a method by a change of the call stack. -/
theorem leads_enter {id : MethodId} {arguments : List Value} {m m' : Machine}
    (he : Exec.enter id arguments m = .ok () m') : m.Leads m' :=
  Stable.enter he (.refl m)

/-- A program leaves a method by a change of the call stack. -/
theorem leads_leave (id : MethodId) (worked : Outcome Unit) :
    worked.machine.Leads (leave id worked).machine :=
  Stable.leave id worked (.refl _)

/-- An instruction makes the changes of programs only, also if it fails. -/
theorem leads_step {inst : Instruction} {m : Machine} {stepped : Outcome Flow}
    (hs : Exec.step inst m = stepped) : m.Leads stepped.machine :=
  (Exec.changes_step inst).leads hs

/-- A step that makes a call, the call, and the pushing of what it leaves. -/
theorem leads_called {inst : Instruction} {flow : Flow} {m m₁ m₂ : Machine}
    {result created : Option Value} {pushed : Outcome Unit} (hs : Exec.step inst m = .ok flow m₁)
    (hc : m₁.Leads m₂) (hp : Exec.pushResults result created m₂ = pushed) :
    m.Leads pushed.machine :=
  ((leads_step hs).trans hc).trans ((Exec.changes_pushResults result created).leads hp)

/-- However a work ends, only changes that a program can make lead there. -/
theorem Ends.leads {work : Work} {m : Machine} {outcome : Outcome work.Result}
    (h : Ends work m outcome) : m.Leads outcome.machine := by
  induction h with
  | refused he =>
    obtain ⟨rfl, _⟩ := enter_eq_error he
    exact .refl _
  | @native id _ _ m' he _ =>
    exact ((leads_enter he).trans (Exec.changes_runNative id m')).trans (leads_leave id _)
  | interpreted he _ _ ih => exact ((leads_enter he).trans ih).trans (leads_leave _ _)
  | passed => exact .refl _
  | faulted _ hs => exact leads_step hs
  | left _ hs => exact leads_step hs
  | next _ hs _ ih => exact (leads_step hs).trans ih
  | jump _ hs _ _ ih => exact (leads_step hs).trans ih
  | astray _ hs _ => exact leads_step hs
  | calleeFaulted _ hs _ ih => exact (leads_step hs).trans ih
  | notResumed _ hs _ hp ih => exact leads_called hs ih hp
  | resumed _ hs _ hp _ ihc ihr => exact (leads_called hs ihc hp).trans ihr

/-- Only changes that a program can make lead to a machine that a run passes, whether it ends or
not. -/
theorem Passes.leads {work : Work} {m m' : Machine} (h : Passes work m m') : m.Leads m' := by
  induction h with
  | start => exact .refl _
  | ended he => exact he.leads
  | entered he => exact leads_enter he
  | native he _ => exact (leads_enter he).trans (Exec.changes_runNative _ _)
  | interpreted he _ _ ih => exact (leads_enter he).trans ih
  | evaluated _ => exact leads_step rfl
  | next _ hs _ ih => exact (leads_step hs).trans ih
  | jump _ hs _ _ ih => exact (leads_step hs).trans ih
  | callee _ hs _ ih => exact (leads_step hs).trans ih
  | returned _ hs hc => exact leads_called hs hc.leads rfl
  | resumed _ hs hc hp _ ih => exact (leads_called hs hc.leads hp).trans ih

/-- A call makes the changes of programs only. -/
theorem leads_call {fuel : Nat} {id : MethodId} {arguments : List Value} {m : Machine}
    {outcome : Outcome (Option Value)} (h : m.call fuel id arguments = some outcome) :
    m.Leads outcome.machine :=
  (ends_of_call h).leads

/-- The arguments of a program are made by changes. -/
theorem changes_startArguments (id : MethodId) (texts : List String) :
    Exec.Changes (startArguments id texts) :=
  .of_retains fun _ => retains_startArguments id texts

/-- A program that is started makes the changes of programs only. -/
theorem leads_start {fuel : Nat} {texts : List String} {m : Machine}
    {outcome : Outcome (Option Value)} (h : m.start fuel texts = some outcome) :
    m.Leads outcome.machine := by
  unfold start at h
  split at h
  · cases h
    exact .refl m
  · rename_i id _
    split at h
    · rename_i hp
      cases h
      exact (changes_startArguments id texts).leads hp
    · rename_i hp
      exact ((changes_startArguments id texts).leads hp).trans (leads_call h)

/-- A method that is executed makes the changes of programs only. -/
theorem leads_execute {fuel : Nat} {id : MethodId} {m : Machine}
    {outcome : Outcome (Option Value)} (h : m.execute fuel id = some outcome) :
    m.Leads outcome.machine := by
  unfold execute at h
  split at h
  · rename_i ht
    cases h
    exact (Exec.changes_takeArguments id).leads ht
  · rename_i ht
    obtain ⟨ended, hcall, rfl⟩ := Option.map_eq_some_iff.mp h
    refine (((Exec.changes_takeArguments id).leads ht).trans (leads_call hcall)).trans ?_
    split
    · exact .refl _
    · split
      · exact (Change.calls _ _).leads
      · exact .refl _

end Machine

open Machine in
/-- An action loads a module, removes garbage or makes an object for the host; any other one does
only what a program can do as well. -/
theorem Action.run_cases {action : Action} {fuel : Nat} {m : Machine}
    {outcome : Outcome (List Value)} (hr : action.run fuel m = some outcome) :
    (∃ image, action = .load image ∧ outcome.machine = Outcome.machine (m.load image)) ∨
      (action = .collectGarbage ∧ outcome.machine = m.collectGarbage.2) ∨
      (∃ type, action = .instantiate type ∧
        outcome.machine = Outcome.machine (Exec.instantiate type m)) ∨
      m.Leads outcome.machine := by
  have hleads : ∀ {α : Type} {values : α → List Value} {ended : Outcome α},
      m.Leads ended.machine → m.Leads (given values ended).machine := by
    intro α values ended hl
    rwa [machine_given]
  cases action with
  | load image =>
    cases hr
    exact .inl ⟨image, rfl, machine_given _ _⟩
  | start texts =>
    obtain ⟨ended, he, rfl⟩ := Option.map_eq_some_iff.mp hr
    exact .inr (.inr (.inr (hleads (leads_start he))))
  | call id arguments =>
    obtain ⟨ended, he, rfl⟩ := Option.map_eq_some_iff.mp hr
    exact .inr (.inr (.inr (hleads (leads_call he))))
  | execute id =>
    obtain ⟨ended, he, rfl⟩ := Option.map_eq_some_iff.mp hr
    exact .inr (.inr (.inr (hleads (leads_execute he))))
  | collectGarbage =>
    cases hr
    exact .inr (.inl ⟨rfl, rfl⟩)
  | instantiate type =>
    cases hr
    exact .inr (.inr (.inl ⟨type, rfl, machine_given _ _⟩))
  | allocString text =>
    cases hr
    exact .inr (.inr (.inr (hleads (Exec.retains_allocString text m (.refl m)))))
  | allocArray elements =>
    cases hr
    exact .inr (.inr (.inr (hleads (Exec.retains_allocArray elements m (.refl m)))))
  | allocList items =>
    cases hr
    exact .inr (.inr (.inr (hleads (Exec.retains_allocList items m (.refl m)))))
  | setField handle name value =>
    cases hr
    exact .inr (.inr (.inr (hleads (leads_setField m handle name value))))

end ManagedCode
