import ManagedCode.Proofs.Renaming.Twins
import ManagedCode.Proofs.Widening.Loading

/-!
# Runs that differ in the width of branches

Two machines are equal except for their catalogs, in which bodies match. Every instruction then does
the same on both, and execution goes on at the same position of bodies that match. So all calls end
in the same way, or run on on both machines, and the machines stay equal except for their catalogs.
-/

namespace ManagedCode

/-- The machines are equal except that the first has the catalog `c` and the second `c'`. -/
structure Machine.Over (c c' : Catalog) (m m' : Machine) : Prop where
  first : m.catalog = c
  second : m' = { m with catalog := c' }

/-- The outcomes are results in the relation `R`, or faults that are equal up to byte offsets, on
machines that are equal except for their catalogs `c` and `c'`. -/
inductive Outcome.Over (c c' : Catalog) {α : Type} (R : α → α → Prop) :
    Outcome α → Outcome α → Prop
  | ok {a b : α} {m m' : Machine} (h : R a b) (hm : m.Over c c' m') :
      Outcome.Over c c' R (.ok a m) (.ok b m')
  | error {f g : Fault} {m m' : Machine} (h : f.withoutOffset = g.withoutOffset)
      (hm : m.Over c c' m') : Outcome.Over c c' R (.error f m) (.error g m')

namespace Machine.Over

variable {c c' : Catalog} {m m' : Machine}

/-- Equal call stacks stay so when their active frames are changed alike. -/
theorem frame_eq {f g : Frame → Frame} (h : m.Over c c' m')
    (hfg : ∀ a b, m.calls.top? = some a → m'.calls.top? = some b →
      (f a).Alike (PEquiv.refl Handle) (g b) ∧ (f a).caller = a.caller ∧
        (g b).caller = b.caller) :
    m.calls.modifyTop f = m.calls.modifyTop g := by
  rw [h.second] at hfg
  unfold CallStack.top? at hfg
  unfold CallStack.modifyTop
  cases hframes : m.calls.frames with
  | nil => rfl
  | cons frame rest =>
    simp only [hframes] at hfg
    obtain ⟨halike, hf, hg⟩ := hfg frame frame rfl rfl
    dsimp only
    rw [(Frame.alike_refl_iff (hf.trans hg.symm)).mp halike]

/-- Machines that differ in their catalogs only still do when a frame is left. -/
theorem exitFrame (h : m.Over c c' m') : m.exitFrame.Over c c' m'.exitFrame := by
  rw [h.second]
  unfold Machine.exitFrame
  dsimp only
  cases m.calls.pop? with
  | none => exact ⟨h.first, rfl⟩
  | some popped => exact ⟨h.first, rfl⟩

/-- Every computation that asks the catalog for no bodies does the same on both machines. -/
theorem twinRelation (hc : c.Agrees c') : TwinRelation (Over c c') where
  catalog h := by
    rw [h.second, h.first]
    exact hc
  core h := by rw [h.second]
  heap h := by rw [h.second]
  statics h := by rw [h.second]
  output h := by rw [h.second]
  files h := by rw [h.second]
  top {m _} h := by
    rw [h.second]
    show Option.Rel _ m.calls.top? m.calls.top?
    cases m.calls.top? with
    | none => exact .none
    | some frame => exact .some ((Frame.alike_refl_iff rfl).mpr rfl)
  maxArrayLength h := by rw [h.second]
  depth h := by rw [h.second]
  maxDepth h := by rw [h.second]
  setHeap h heap := ⟨h.first, by rw [h.second]⟩
  setStatics h statics := ⟨h.first, by rw [h.second]⟩
  setOutput h output := ⟨h.first, by rw [h.second]⟩
  setFiles h files := ⟨h.first, by rw [h.second]⟩
  modifyTop h hfg := ⟨h.first, by rw [h.frame_eq hfg, h.second]⟩
  withFrame h id values := ⟨h.first, by rw [h.second]; rfl⟩
  exitFrame _ h _ := h.exitFrame
  popLastExited {m _ frame frame' v w} h hx hy := by
    rw [h.second] at hy
    -- the frames with the value are equal, so the frames without it are
    have hpushed : frame.push v = frame'.push w := Option.some.inj (hx.symm.trans hy)
    have hpopped := congrArg Frame.pop? hpushed
    obtain rfl : frame = frame' := congrArg Prod.snd (Option.some.inj hpopped)
    exact ⟨h.first, by rw [h.second]⟩

/-- Machines that differ in catalogs that agree take the same steps. -/
theorem stepwise (hc : c.Agrees c') : Stepwise (fun _ => False) (SameHandles (Over c c')) where
  toParallel := (twinRelation hc).parallel
  argumentOrder h := by rw [h.2.second]

end Machine.Over

namespace Outcome.Over

variable {c c' : Catalog} {α : Type} {m m' : Machine}

/-- Outcomes that follow each other under the same handles are equal. -/
theorem of_followed {R : Renaming → α → α → Prop} {S : α → α → Prop}
    (hS : ∀ a b, R (PEquiv.refl Handle) a b → S a b) {ρ : Renaming} {x y : Outcome α}
    (h : Followed (fun _ => False) (SameHandles (Machine.Over c c')) ρ R x (some y)) :
    Outcome.Over c c' S x y := by
  cases h with
  | excused h => exact h.elim
  | ok _ hm h =>
    obtain ⟨rfl, hm⟩ := hm
    exact .ok (hS _ _ h) hm
  | fault _ hm h =>
    obtain ⟨rfl, hm⟩ := hm
    exact .error (by rw [Fault.eq_of_alike_refl h]) hm

/-- Outcomes that differ in the catalogs only do so in their machines. -/
theorem machine {R : α → α → Prop} {x y : Outcome α} (h : Outcome.Over c c' R x y) :
    (Outcome.machine x).Over c c' (Outcome.machine y) := by
  cases h with
  | ok _ hm => exact hm
  | error _ hm => exact hm

end Outcome.Over

/-- Without renaming, methods that go on alike go on equally. -/
theorem Flow.eq_of_alike_refl {flow flow' : Flow} (h : flow.Alike (PEquiv.refl Handle) flow') :
    flow = flow' := by
  cases h with
  | next => rfl
  | jump target => rfl
  | call id hv hc => rw [Values.alike_refl_iff.mp hv, Value.option_alike_refl_iff.mp hc]
  | leave => rfl

namespace Machine

section

variable {c c' : Catalog} (hc : c.Matches c') {m m' : Machine}

include hc

/-- Instructions that match do the same on both machines. -/
theorem Over.step {reach : UInt32 → UInt32 → Prop} {inst inst' : Instruction}
    (hi : inst.Matches reach inst') (hm : m.Over c c' m') :
    Outcome.Over c c' (Flow.Matches reach) (Exec.step inst m) (Exec.step inst' m') := by
  have hfirst := Exec.stepMatches hi m
  have hsecond : Outcome.Over c c' Eq (Exec.step inst' m) (Exec.step inst' m') :=
    .of_followed (fun _ _ => Flow.eq_of_alike_refl)
      ((Over.stepwise hc.agrees).step inst' ⟨rfl, hm⟩)
  generalize Exec.step inst m = x, Exec.step inst' m = y, Exec.step inst' m' = z
    at hfirst hsecond
  cases hfirst with
  | ok _ hflow =>
    cases hsecond with
    | ok h hm =>
      subst h
      exact .ok hflow hm
  | error _ hf =>
    cases hsecond with
    | error hg hm => exact .error (hf.trans hg) hm

/-- Paired computations end in the same way on both machines. -/
theorem Over.paired {α : Type} {x y : Exec α} {R : Renaming → α → α → Prop} {S : α → α → Prop}
    (hp : Exec.Paired (PEquiv.refl Handle) x y R)
    (hS : ∀ a b, R (PEquiv.refl Handle) a b → S a b) (hm : m.Over c c' m') :
    Outcome.Over c c' S (x m) (y m') :=
  .of_followed hS ((Over.twinRelation hc.agrees).parallel.paired hp ⟨rfl, hm⟩)

/-- Methods whose work came to the same are left alike. -/
theorem Over.leave (id : MethodId) {worked worked' : Outcome Unit}
    (h : Outcome.Over c c' Eq worked worked') :
    Outcome.Over c c' Eq (Machine.leave id worked) (Machine.leave id worked') := by
  cases h with
  | error h hm => exact .error h hm.exitFrame
  | @ok _ _ m _ _ hm =>
    have hlast : Option.Rel (Frame.Alike (PEquiv.refl Handle)) m.exitFrame.calls.lastExited
        m.exitFrame.calls.lastExited := by
      cases m.exitFrame.calls.lastExited with
      | none => exact .none
      | some frame => exact .some ((Frame.alike_refl_iff rfl).mpr rfl)
    have htaken := (Over.twinRelation hc.agrees).parallel.takeResult id ⟨rfl, hm.exitFrame⟩
      (by rw [hm.exitFrame.second]; exact hlast)
    exact .of_followed (fun _ _ => Value.option_alike_refl_iff.mp) htaken

/-- A call does the same on both machines if running bodies that match does. -/
theorem Over.callWith {run : Body → Machine → Option (Outcome Unit)} (id : MethodId)
    (arguments : List Value) (hm : m.Over c c' m')
    (hrun : ∀ body body' m m', body.Matches body' → m.Over c c' m' →
      Option.Rel (Outcome.Over c c' Eq) (run body m) (run body' m')) :
    Option.Rel (Outcome.Over c c' Eq) (Machine.callWith run id arguments m)
      (Machine.callWith run id arguments m') := by
  have hentered : Outcome.Over c c' Eq (Exec.enter id arguments m) (Exec.enter id arguments m') :=
    .of_followed (fun _ _ h => h)
      ((Over.twinRelation hc.agrees).parallel.enter id ⟨rfl, hm⟩ (Values.alike_refl_iff.mpr rfl))
  unfold Machine.callWith
  generalize Exec.enter id arguments m = first, Exec.enter id arguments m' = second at hentered
  cases hentered with
  | error h hm => exact .some (.error h hm)
  | @ok _ _ m m' _ hm =>
    have hmethod : (m.catalog.method id).Matches (m'.catalog.method id) := by
      rw [hm.second, hm.first]
      exact hc.method id
    have hnative : (m.catalog.method id).isNative = (m'.catalog.method id).isNative :=
      hmethod.body.isEmpty_eq
    dsimp only
    rw [hnative]
    split
    · have hworked := Over.paired hc (Exec.paired_runNative id) (fun _ _ h => h) hm
      exact .some (Over.leave hc id hworked)
    · have hworked := hrun _ _ m m' hmethod.body hm
      generalize run (m.catalog.method id).body m = worked,
        run (m'.catalog.method id).body m' = worked' at hworked
      cases hworked with
      | none => exact .none
      | some h => exact .some (Over.leave hc id h)

/-- The results of calls are pushed, and then the rest does the same. -/
private theorem Over.resume {rest rest' : Machine → Option (Outcome Unit)}
    (result created : Option Value) (hm : m.Over c c' m')
    (hrest : ∀ m m', m.Over c c' m' → Option.Rel (Outcome.Over c c' Eq) (rest m) (rest' m')) :
    Option.Rel (Outcome.Over c c' Eq)
      (match Exec.pushResults result created m with
        | .error fault m => some (.error fault m)
        | .ok _ m => rest m)
      (match Exec.pushResults result created m' with
        | .error fault m => some (.error fault m)
        | .ok _ m => rest' m) := by
  have hpushed := Over.paired hc (Exec.paired_pushResults
    (Value.option_alike_refl_iff.mpr (Eq.refl result))
    (Value.option_alike_refl_iff.mpr (Eq.refl created))) (fun _ _ h => h) hm
  generalize Exec.pushResults result created m = pushed,
    Exec.pushResults result created m' = pushed' at hpushed
  cases hpushed with
  | error h hm => exact .some (.error h hm)
  | ok _ hm => exact hrest _ _ hm

/-- The rest of a body does the same as that of a body that matches. -/
theorem Over.runBody {fuel : Nat} {body body' : Body} (hb : body.Matches body') (position : Nat)
    (hm : m.Over c c' m') :
    Option.Rel (Outcome.Over c c' Eq) (Machine.runBody fuel body position m)
      (Machine.runBody fuel body' position m') := by
  -- Both runs have the same fuel and are always at the same position.
  induction fuel generalizing m m' body body' position with
  | zero => exact .none
  | succ fuel ih =>
    unfold Machine.runBody
    have hinst := hb.get? position
    generalize body.get? position = x, body'.get? position = y at hinst
    cases hinst with
    | none => exact .some (.ok rfl hm)
    | @some inst inst' hi =>
      have hstep := Over.step hc hi hm
      dsimp only
      generalize Exec.step inst m = first, Exec.step inst' m' = second at hstep
      cases hstep with
      | error h hm => exact .some (.error h hm)
      | @ok flow _ m m' hflow hm =>
        cases hflow with
        | @jump t t' hreach =>
          dsimp only
          rw [hreach]
          cases body'.indexOf? t' with
          | none => exact .some (.error rfl hm)
          | some position => exact ih hb position hm
        | same hn =>
          cases flow with
          | next => exact ih hb (position + 1) hm
          | leave => exact .some (.ok rfl hm)
          | jump target => exact absurd rfl (hn target)
          | call id arguments created =>
            have hcalled := Over.callWith hc id arguments hm
              fun _ _ _ _ hb hm => ih hb 0 hm
            dsimp only
            generalize Machine.callWith (fun callee m => Machine.runBody fuel callee 0 m) id
                arguments m = called,
              Machine.callWith (fun callee m => Machine.runBody fuel callee 0 m) id
                arguments m' = called' at hcalled
            cases hcalled with
            | none => exact .none
            | some hcalled =>
              cases hcalled with
              | error h hm => exact .some (.error h hm)
              | @ok result _ m m' hresult hm =>
                subst hresult
                exact Over.resume hc result created hm fun _ _ hm => ih hb (position + 1) hm

/-- A call does the same on both machines. -/
theorem Over.call (fuel : Nat) (id : MethodId) (arguments : List Value) (hm : m.Over c c' m') :
    Option.Rel (Outcome.Over c c' Eq) (m.call fuel id arguments) (m'.call fuel id arguments) :=
  Over.callWith hc id arguments hm fun _ _ _ _ hb hm => Over.runBody hc hb 0 hm

/-- A call on behalf of the running method does the same on both machines. -/
theorem Over.execute (fuel : Nat) (id : MethodId) (hm : m.Over c c' m') :
    Option.Rel (Outcome.Over c c' Eq) (m.execute fuel id) (m'.execute fuel id) := by
  have htaken : Outcome.Over c c' Eq (Exec.takeArguments id m) (Exec.takeArguments id m') :=
    .of_followed (fun _ _ => Values.alike_refl_iff.mp)
      ((Over.stepwise hc.agrees).takeArguments id ⟨rfl, hm⟩)
  unfold Machine.execute
  generalize Exec.takeArguments id m = first, Exec.takeArguments id m' = second at htaken
  cases htaken with
  | error h hm => exact .some (.error h hm)
  | @ok arguments _ m m' h hm =>
    subst h
    have hcalled := Over.call hc fuel id arguments hm
    dsimp only
    generalize m.call fuel id arguments = called, m'.call fuel id arguments = called' at hcalled
    cases hcalled with
    | none => exact .none
    | some hcalled =>
      refine .some ?_
      cases hcalled with
      | error h hm => exact .error h hm
      | @ok result _ m m' h hm =>
        subst h
        have htop : m'.calls.top? = m.calls.top? := by rw [hm.second]
        dsimp only
        rw [htop]
        split
        · exact .ok rfl ⟨hm.first, by rw [hm.second]⟩
        · exact .ok rfl hm

/-- A program does the same on both machines. -/
theorem Over.start (fuel : Nat) (texts : List String) (hm : m.Over c c' m') :
    Option.Rel (Outcome.Over c c' Eq) (m.start fuel texts) (m'.start fuel texts) := by
  have hentry : m'.catalog.entryPoint? = m.catalog.entryPoint? := by
    rw [hm.second, hm.first]
    exact hc.agrees.entryPoint?.symm
  unfold Machine.start
  rw [hentry]
  cases m.catalog.entryPoint? with
  | none => exact .some (.error rfl hm)
  | some id =>
    have hprepared := Over.paired hc (Exec.paired_startArguments id texts)
      (fun _ _ => Values.alike_refl_iff.mp) hm
    dsimp only
    generalize startArguments id texts m = first, startArguments id texts m' = second
      at hprepared
    cases hprepared with
    | error h hm => exact .some (.error h hm)
    | @ok arguments _ m m' h hm =>
      subst h
      exact Over.call hc fuel id arguments hm

/-- Loading modules that declare the same up to matching bodies does the same on both machines. -/
theorem Over.loadModule {source source' : ModuleSource} (hs : source.Matches source')
    (hm : m.Over c c' m') :
    let c := (Outcome.machine (m.loadModule source)).catalog
    let c' := (Outcome.machine (m'.loadModule source')).catalog
    c.Matches c' ∧ Outcome.Over c c' Eq (m.loadModule source) (m'.loadModule source') := by
  have hmatches : m.catalog.Matches m'.catalog := by
    rw [hm.second, hm.first]
    exact hc
  have hadded := Load.together_addModule hs _ _ hmatches
  unfold Machine.loadModule
  generalize Load.addModule source m.catalog = x, Load.addModule source' m'.catalog = y at hadded
  cases hadded with
  | ok id h => exact ⟨h, .ok rfl ⟨rfl, by rw [hm.second]; rfl⟩⟩
  | error fault h => exact ⟨h, .error rfl ⟨rfl, by rw [hm.second]; rfl⟩⟩

end

end Machine

/-! ## Modules -/

open Source (Literals)

/-- The width of branches does not affect what a module does. Let some sources be assembled with one
string table, and the same sources with any of their short branches in the long forms, where all
targets are labels and all code is shorter than 2³¹ bytes. Let two images be equal except that the
code of their methods comes from the first and the second of these runs. Then loading them into a
machine gives the same, and on states that are equal except that one module is loaded in place of
the other, every call, on its own, for the running method or of the whole program, gives the same
value, or a fault that is equal up to byte offsets, or goes on for as long. The states afterwards
are again equal except for the loaded module: in the heap, the static fields, the console output,
the files and the frames. -/
theorem branch_width_irrelevant {sources sources' : List String}
    (hw : List.Forall₂ Source.Widened sources sources')
    (hj : ∀ source ∈ sources, Source.JumpsToLabels source) {literals later later' : Literals}
    {codes codes' : List (List UInt8)}
    (ha : sources.mapM Source.assemble literals = .ok codes later)
    (ha' : sources'.mapM Source.assemble literals = .ok codes' later')
    (hl : ∀ code ∈ codes, code.length < 2 ^ 31) (hl' : ∀ code ∈ codes', code.length < 2 ^ 31)
    {image image' : Image}
    (hi : image.Recoded (fun code code' => (code, code') ∈ codes.zip codes') image')
    (m : Machine) :
    let c := (Outcome.machine (m.load image)).catalog
    let c' := (Outcome.machine (m.load image')).catalog
    later = later' ∧ Outcome.Over c c' Eq (m.load image) (m.load image') ∧
    ∀ s s' : Machine, s.Over c c' s' → ∀ fuel,
      (∀ id arguments, Option.Rel (Outcome.Over c c' Eq)
        (s.call fuel id arguments) (s'.call fuel id arguments)) ∧
      (∀ id, Option.Rel (Outcome.Over c c' Eq) (s.execute fuel id) (s'.execute fuel id)) ∧
      ∀ texts, Option.Rel (Outcome.Over c c' Eq) (s.start fuel texts) (s'.start fuel texts) := by
  intro c c'
  obtain ⟨hlater, hdecode⟩ := Source.decodesAlike_mapM hw hj ha ha' hl hl'
  have hsame : m.Over m.catalog m.catalog m := ⟨rfl, rfl⟩
  obtain ⟨hc, hloaded⟩ := hsame.loadModule (.refl m.catalog) (hi.source hdecode)
  exact ⟨hlater, hloaded, fun s s' hs fuel => ⟨fun id arguments => hs.call hc fuel id arguments,
    fun id => hs.execute hc fuel id, fun texts => hs.start hc fuel texts⟩⟩

/-- A module with one method, which counts its argument down. -/
def countdown (code : List UInt8) : Image where
  name := "Countdown"
  types := [{
    nameSpace := ""
    name := "Countdown"
    base := none
    fields := []
    constructors := []
    methods := [{
      name := "Run"
      signature := "static (int32)int32"
      isAbstract := false
      isVirtual := false
      code }] }]
  strings := .empty
  members := .ofList []

/-- When the branch out of the loop is long, the short branch back gets another displacement. -/
theorem branch_width_irrelevant_countdown :
    let short := "a: ldarg.0\nbrfalse.s b\nldarg.0\nldc.i4.1\nsub\nstarg.s 0\nbr.s a\nb: ldc.i4.7"
    let long := "a: ldarg.0\nbrfalse b\nldarg.0\nldc.i4.1\nsub\nstarg.s 0\nbr.s a\nb: ldc.i4.7"
    let code : List UInt8 := [0x02, 0x2C, 0x07, 0x02, 0x17, 0x59, 0x10, 0x00, 0x2B, 0xF6, 0x1D]
    let code' : List UInt8 := [0x02, 0x39, 0x07, 0x00, 0x00, 0x00, 0x02, 0x17, 0x59, 0x10, 0x00,
      0x2B, 0xF3, 0x1D]
    let run (code : List UInt8) :=
      (Outcome.machine ((Machine.new {} .empty).load (countdown code))).call 20 ⟨32⟩ [.int32 2]
    Source.Widened short long ∧ Source.JumpsToLabels short ∧
      Source.assemble short .empty = .ok code .empty ∧
      Source.assemble long .empty = .ok code' .empty ∧
      ∃ m m' : Machine, run code = some (.ok (some (.int32 7)) m) ∧
        run code' = some (.ok (some (.int32 7)) m') ∧ m' = { m with catalog := m'.catalog } := by
  intro short long code code' run
  have hw : Source.Widened short long := by decide +kernel
  have hj : Source.JumpsToLabels short := by decide +kernel
  have ha : Source.assemble short .empty = .ok code .empty :=
    Source.eq_ok_of_gives (by decide +kernel)
  have ha' : Source.assemble long .empty = .ok code' .empty :=
    Source.eq_ok_of_gives (by decide +kernel)
  have hmapM {source : String} {code : List UInt8}
      (h : Source.assemble source .empty = .ok code .empty) :
      [source].mapM Source.assemble .empty = .ok [code] .empty := by
    simp [List.mapM_cons, bind, EStateM.bind, h, pure, EStateM.pure]
  have hi : (countdown code).Recoded (fun a b => (a, b) ∈ [code].zip [code']) (countdown code') :=
    ⟨rfl, .cons ⟨rfl, rfl, rfl, rfl, .nil, .cons ⟨rfl, rfl, rfl, rfl, List.mem_cons_self⟩ .nil⟩
      .nil, rfl, rfl⟩
  obtain ⟨_, hloaded, hcalls⟩ := branch_width_irrelevant (.cons hw .nil)
    (List.forall_mem_singleton.mpr hj) (hmapM ha) (hmapM ha')
    (List.forall_mem_singleton.mpr (by decide)) (List.forall_mem_singleton.mpr (by decide)) hi
    (Machine.new {} .empty)
  have hsame : Option.Rel _ (run code) (run code') :=
    (hcalls _ _ hloaded.machine 20).1 ⟨32⟩ [.int32 2]
  have hresult : (run code).bind Outcome.result? = some (some (.int32 7)) := by
    decide +kernel
  obtain ⟨outcome, hcall, hseven⟩ := Option.bind_eq_some_iff.mp hresult
  rw [hcall] at hsame
  generalize run code' = second at hsame ⊢
  cases hsame with
  | some h =>
    cases h with
    | ok hv hm =>
      cases hseven
      subst hv
      exact ⟨hw, hj, ha, ha', _, _, hcall, rfl, by rw [hm.second]⟩
    | error => cases hseven

end ManagedCode
