import ManagedCode.Proofs.Execution.Attainability
import ManagedCode.Proofs.Heap.Reachability
import ManagedCode.Proofs.Renaming.Linked

/-!
# Collections are invisible to programs

After a collection the heap gives out other handles than it would have without it. A program cannot
tell: a machine and the machine after a collection are linked by the renaming that gives every
reachable handle its own name, and linked machines run in lockstep. So a call gives the same on
both, up to a renaming of handles, unless the machine without the collection runs out of room.
-/

namespace ManagedCode

/-! ## Reachable objects up to renaming -/

section Symmetry

variable {ρ : Renaming}

/-- Values that are alike are so the other way round. -/
theorem Value.Alike.symm {v w : Value} (h : v.Alike ρ w) : w.Alike ρ.symm v := by
  cases h with
  | ref h => exact .ref (ρ.mem_iff_mem.mpr h)
  | number h => exact .number h

/-- Lists of values that are alike are so the other way round. -/
theorem Values.Alike.symm {vs ws : List Value} (h : Values.Alike ρ vs ws) :
    Values.Alike ρ.symm ws vs :=
  h.flip.imp fun _ _ h => Value.Alike.symm h

/-- Slots that are alike are so the other way round. -/
theorem Slot.Alike.symm {a b : Slot} (h : a.Alike ρ b) : b.Alike ρ.symm a := by
  cases h with
  | value h => exact .value h.symm
  | text s => exact .text s
  | array h => exact .array ⟨h.kind.symm, h.values.symm⟩
  | list h => exact .list h.symm

/-- Heaps that are alike are so the other way round. -/
theorem Heap.Alike.symm {heap heap' : Heap} (h : heap.Alike ρ heap') :
    heap'.Alike ρ.symm heap := by
  intro other handle hh
  obtain ⟨a, b, ha, hb, hab⟩ := h handle other (ρ.mem_iff_mem.mp hh)
  exact ⟨b, a, hb, ha, hab.type.symm, hab.slots.flip.imp fun _ _ h => Slot.Alike.symm h⟩

end Symmetry

section

variable {ρ : Renaming}

/-- The values of alike slots are alike. -/
theorem Slot.Alike.values {a b : Slot} (h : a.Alike ρ b) : Values.Alike ρ a.values b.values := by
  cases h with
  | value h => exact .cons h .nil
  | text s => exact .nil
  | array h => exact h.values
  | list h => exact h

/-- What is in a list has its counterpart in a related one. -/
theorem exists_of_mem {α β : Type} {R : α → β → Prop} {as : List α} {bs : List β}
    (h : List.Forall₂ R as bs) {a : α} (ha : a ∈ as) : ∃ b ∈ bs, R a b := by
  induction h with
  | nil => cases ha
  | cons hxy _ ih =>
    rcases List.mem_cons.mp ha with rfl | ha
    · exact ⟨_, List.mem_cons_self, hxy⟩
    · obtain ⟨b, hb, hab⟩ := ih ha
      exact ⟨b, List.mem_cons_of_mem _ hb, hab⟩

/-- A reference among values has its other name among values that are alike. -/
theorem Values.Alike.exists_ref {vs ws : List Value} (h : Values.Alike ρ vs ws) {handle : Handle}
    (hv : Value.ref handle ∈ vs) : ∃ other ∈ ρ handle, Value.ref other ∈ ws := by
  obtain ⟨w, hw, hvw⟩ := exists_of_mem h hv
  cases hvw with
  | ref hh => exact ⟨_, hh, hw⟩
  | number hn => cases hn

/-- What is reachable on one side is reachable under its name on the other. -/
theorem Heap.Reaches.renamed {heap heap' : Heap} (hh : heap.Alike ρ heap') {vs ws : List Value}
    (hv : Values.Alike ρ vs ws) {handle : Handle}
    (h : heap.Reaches (vs.filterMap Value.handle?) handle) :
    ∃ other ∈ ρ handle, heap'.Reaches (ws.filterMap Value.handle?) other := by
  have hlive : ∀ {handle other}, other ∈ ρ handle → heap'.Live other := fun hm =>
    have ⟨_, _, _, hb, _⟩ := hh _ _ hm
    Heap.live_of_get? hb
  induction h with
  | root hr _ =>
    obtain ⟨other, hm, ho⟩ := hv.exists_ref (mem_handles_iff.mp hr)
    exact ⟨other, hm, .root (mem_handles_iff.mpr ho) (hlive hm)⟩
  | step _ ho hs hn _ ih =>
    obtain ⟨other, hm, hreached⟩ := ih
    obtain ⟨a, b, ha, hb, hab⟩ := hh _ other hm
    obtain rfl := Option.some.inj (ho.symm.trans ha)
    obtain ⟨slot', hs', hslots⟩ := exists_of_mem hab.slots hs
    obtain ⟨next', hnext, hn'⟩ := hslots.values.exists_ref hn
    exact ⟨next', hnext, .step hreached hb hs' hn' (hlive hnext)⟩

end

/-! ## The renaming of a collection -/

namespace Machine

open Classical in
/-- Every reachable handle keeps its name. -/
noncomputable def kept (m : Machine) : Renaming :=
  PEquiv.ofSet {handle | m.heap.Reaches m.roots handle}

variable {m : Machine}

/-- The renaming of a collection keeps the names of the objects that are reached. -/
theorem mem_kept {handle other : Handle} :
    other ∈ m.kept handle ↔ other = handle ∧ m.heap.Reaches m.roots other := by
  classical exact PEquiv.mem_ofSet_iff

/-- A value that refers to a reached object is alike itself. -/
theorem alike_kept {v : Value} (h : ∀ handle, v = .ref handle → m.heap.Reaches m.roots handle) :
    v.Alike m.kept v := by
  cases v with
  | ref handle => exact .ref (mem_kept.mpr ⟨rfl, h handle rfl⟩)
  | _ => exact .number rfl

/-- Values that refer to reached objects are alike themselves. -/
theorem alike_kept_values {values : List Value}
    (h : ∀ handle, Value.ref handle ∈ values → m.heap.Reaches m.roots handle) :
    Values.Alike m.kept values values :=
  List.forall₂_same.mpr fun _ hv => alike_kept fun handle he => h handle (he ▸ hv)

/-- A slot that refers to reached objects is alike itself. -/
theorem alike_kept_slot {slot : Slot}
    (h : ∀ handle, Value.ref handle ∈ slot.values → m.heap.Reaches m.roots handle) :
    slot.Alike m.kept slot := by
  have hvalues := alike_kept_values h
  cases slot with
  | value v => exact .value (List.forall₂_same.mp hvalues v List.mem_cons_self)
  | text s => exact .text s
  | array elements => exact .array ⟨rfl, hvalues⟩
  | list items => exact .list hvalues

/-- Without dangling references every root is reachable. -/
theorem NoDangling.reaches_static (hn : m.NoDangling) {handle : Handle}
    (h : Value.ref handle ∈ m.statics.values) : m.heap.Reaches m.roots handle :=
  .root (mem_roots.mpr (Or.inr h)) (hn.statics handle h)

/-- What a frame refers to is reached. -/
theorem NoDangling.reaches_frame (hn : m.NoDangling) {frame : Frame} (hf : frame ∈ m.calls.frames)
    {handle : Handle} (h : Value.ref handle ∈ frame.values) : m.heap.Reaches m.roots handle :=
  .root (mem_roots.mpr (Or.inl ⟨frame, hf, h⟩)) (hn.frames frame hf handle h)

/-- The objects that a collection keeps refer only to objects that it keeps. -/
theorem NoDangling.alike_collect (hn : m.NoDangling) :
    m.heap.Alike m.kept m.collectGarbage.2.heap := by
  intro handle other hh
  obtain ⟨rfl, hr⟩ := mem_kept.mp hh
  obtain ⟨object, ho⟩ := Heap.live_iff.mp hr.live
  refine ⟨object, object, ho, hr.get?_collect.trans ho, rfl, ?_⟩
  refine List.forall₂_same.mpr fun slot hs => ?_
  refine alike_kept_slot fun next hv => .step hr ho hs hv ?_
  exact hn.objects other object ho next (Object.mem_references_iff.mpr ⟨slot, hs, hv⟩)

/-- A machine without dangling references is linked to the machine after a collection. -/
theorem linked_collectGarbage (hn : m.NoDangling) (hw : m.heap.WellFormed)
    (hc : m.heap.capacity ≤ 2 ^ 32) : Linked m.kept m m.collectGarbage.2 where
  catalog := rfl
  core := rfl
  options := rfl
  output := rfl
  files := rfl
  maxDepth := rfl
  frames := by
    refine List.forall₂_same.mpr fun frame hf => ?_
    have hvalues : Values.Alike m.kept frame.values frame.values :=
      alike_kept_values fun handle hv => hn.reaches_frame hf hv
    have hall : ∀ {values}, values ⊆ frame.values → Values.Alike m.kept values values := fun hs =>
      List.forall₂_same.mpr fun v hv => List.forall₂_same.mp hvalues v (hs hv)
    exact ⟨rfl, hall (by simp [Frame.values]), hall (by simp [Frame.values]),
      hall (by simp [Frame.values])⟩
  statics := by
    refine List.forall₂_same.mpr fun entry he => ⟨rfl, alike_kept fun handle hv => ?_⟩
    exact hn.reaches_static (hv ▸ List.mem_map_of_mem he)
  objects := hn.alike_collect
  heap := hw
  heap' := hw.collect m.roots
  capacity := hc
  capacity_eq := rfl
  live_le := Nat.le.intro (Nat.add_comm _ _ ▸ hw.live_collect m.roots)

end Machine

/-! ## Outcomes of calls -/

namespace Outcome

/-- The values that a call leaves to its host: the result and the static fields. -/
def values : Outcome (Option Value) → List Value
  | .ok result m => result.toList ++ m.statics.values
  | .error _ m => m.statics.values

/-- The objects that can be reached from what a call leaves to its host. -/
def Reaches (outcome : Outcome (Option Value)) (handle : Handle) : Prop :=
  outcome.machine.heap.Reaches (outcome.values.filterMap Value.handle?) handle

/-- Both calls succeed with results that are alike, or fail with faults that are. -/
def SameAnswer (ρ : Renaming) : Outcome (Option Value) → Outcome (Option Value) → Prop
  | .ok result _, .ok result' _ => Option.Rel (Value.Alike ρ) result result'
  | .error fault _, .error fault' _ => fault.Alike ρ fault'
  | _, _ => False

/-- The outcomes of two calls are equal up to renaming: the answers, the console, the files, the
static fields, and the objects that can be reached from the result and the static fields. -/
structure Alike (ρ : Renaming) (first second : Outcome (Option Value)) : Prop where
  answer : SameAnswer ρ first second
  output : first.machine.output = second.machine.output
  files : first.machine.files = second.machine.files
  statics : first.machine.statics.Alike ρ second.machine.statics
  /-- Objects under a name are alike. -/
  objects : first.machine.heap.Alike ρ second.machine.heap
  /-- What is reachable has a name, under which it is reachable. -/
  reached : ∀ handle, first.Reaches handle → ∃ other ∈ ρ handle, second.Reaches other
  /-- What is reachable is the name of something reachable. -/
  reached' : ∀ other, second.Reaches other → ∃ handle, other ∈ ρ handle ∧ first.Reaches handle

/-- Outcomes on linked machines are alike if the answers are. -/
theorem Alike.of_linked {ρ : Renaming} {first second : Outcome (Option Value)}
    (h : first.machine.Linked ρ second.machine) (ha : SameAnswer ρ first second)
    (hv : Values.Alike ρ first.values second.values) : Alike ρ first second where
  answer := ha
  output := h.output
  files := h.files
  statics := h.statics
  objects := h.objects
  reached _ hr := hr.renamed h.objects hv
  reached' other hr := by
    obtain ⟨handle, hm, hreached⟩ := hr.renamed h.objects.symm hv.symm
    exact ⟨handle, ρ.mem_iff_mem.mp hm, hreached⟩

end Outcome

/-- Garbage collection is invisible to programs. On a machine without dangling references, a call
whose arguments are reachable from the static fields either runs out of room, or ends in the same
way after a collection, up to a renaming of handles: with the same numbers or the same fault, the
same console output and files, and with static fields, a result and objects reachable from them that
are alike. -/
theorem collection_invisible {options : Options} {files : Files}
    (hc : options.heapCapacity ≤ 2 ^ 32) {m : Machine} (ha : Attainable options files m)
    (hn : m.NoDangling) (id : MethodId) (arguments : List Value)
    (hv : ∀ handle, Value.ref handle ∈ arguments →
      m.heap.Reaches (m.statics.values.filterMap Value.handle?) handle)
    {fuel : Nat} {outcome : Outcome (Option Value)}
    (hcall : m.call fuel id arguments = some outcome)
    (hroom : ∀ capacity m', outcome ≠ .error (.heap (.full capacity)) m') :
    ∃ outcome', m.collectGarbage.2.call fuel id arguments = some outcome' ∧
      ∃ ρ : Renaming, outcome.Alike ρ outcome' := by
  obtain ⟨hw, hcapacity⟩ := ha.heap
  have hlinked := Machine.linked_collectGarbage hn hw (hcapacity ▸ hc)
  -- What the static fields reach is reached from the roots, which may hold frames too.
  have hroots : ∀ handle, m.heap.Reaches (m.statics.values.filterMap Value.handle?) handle →
      m.heap.Reaches m.roots handle := by
    intro handle hr
    induction hr with
    | root hr hl => exact .root (Machine.mem_roots.mpr (Or.inr (mem_handles_iff.mp hr))) hl
    | step _ ho hs hv hl ih => exact .step ih ho hs hv hl
  have harguments := Machine.alike_kept_values fun handle h => hroots handle (hv handle h)
  have hfollowed := Machine.Linked.lockstep.call hlinked harguments hcall
  generalize hcall' : m.collectGarbage.2.call fuel id arguments = second at hfollowed
  cases hfollowed with
  | excused h =>
    obtain ⟨capacity, rfl⟩ := h
    exact absurd rfl (hroom capacity _)
  | @ok ρ result result' m₁ m₁' _ hm hr =>
    refine ⟨_, rfl, ρ, .of_linked hm hr (List.rel_append ?_ hm.statics.values)⟩
    cases hr with
    | none => exact .nil
    | some hv => exact .cons hv .nil
  | fault _ hm hf => exact ⟨_, rfl, _, .of_linked hm hf hm.statics.values⟩

/-- A machine on which the module is loaded and two strings are made. -/
def keeperPrepared : Machine :=
  let loaded := Action.advance 0 (Machine.new {} .empty) (.load keeper)
  Action.advance 0 (Action.advance 0 loaded (.allocString "kept")) (.allocString "lost")

/-- The machine on which the module has kept the first string. -/
def keeperCalled : Machine := Action.advance 4 keeperPrepared (.call ⟨32⟩ [.ref ⟨0, 0⟩])

private theorem reachable_keeperCalled : Reachable {} .empty keeperCalled := by
  have hloaded := Reachable.new.advance 0 (.load keeper) (Machine.holds_nil (.new {} .empty))
  have hkept := hloaded.advance 0 (.allocString "kept") (Machine.holds_nil _)
  have hprepared : Reachable {} .empty keeperPrepared :=
    hkept.advance 0 (.allocString "lost") (Machine.holds_nil _)
  refine hprepared.advance 4 (.call ⟨32⟩ [.ref ⟨0, 0⟩]) (Machine.holds_ref.mpr ?_)
  rw [Heap.Live]
  decide +kernel

/-- Joining the kept string with itself makes an object in a new entry, and after a collection in
the entry of the string that was lost. -/
theorem collection_invisible_reused :
    let arguments : List Value := [.ref ⟨0, 0⟩, .ref ⟨0, 0⟩]
    let call (m : Machine) := m.call 0 ⟨3⟩ arguments
    keeperCalled.NoDangling ∧
      (call keeperCalled).bind Outcome.result? = some (some (.ref ⟨2, 0⟩)) ∧
      (call keeperCalled.collectGarbage.2).bind Outcome.result? = some (some (.ref ⟨1, 1⟩)) ∧
      ∃ outcome outcome', call keeperCalled = some outcome ∧
        call keeperCalled.collectGarbage.2 = some outcome' ∧
        ∃ ρ : Renaming, outcome.Alike ρ outcome' := by
  intro arguments call
  have hheap : keeperCalled.heap =
      ⟨#[⟨0, some ⟨⟨7⟩, [.text "kept"]⟩⟩, ⟨0, some ⟨⟨7⟩, [.text "lost"]⟩⟩], [], 65536, 2⟩ := by
    decide +kernel
  have hstatics : keeperCalled.statics.values = [.ref ⟨0, 0⟩] := by decide +kernel
  have hroots : keeperCalled.roots = [⟨0, 0⟩] := by decide +kernel
  have hkept : (keeperCalled.heap.collect keeperCalled.roots).2 =
      ⟨#[⟨0, some ⟨⟨7⟩, [.text "kept"]⟩⟩, ⟨1, none⟩], [1], 65536, 1⟩ := by
    have hmarks : Heap.marksFrom
        ⟨#[⟨0, some ⟨⟨7⟩, [.text "kept"]⟩⟩, ⟨0, some ⟨⟨7⟩, [.text "lost"]⟩⟩], [], 65536, 2⟩
        [⟨0, 0⟩] = #[true, false] := by cbv
    rw [hheap, hroots, Heap.collect_eq, hmarks]
    rfl
  have hcollected : keeperCalled.collectGarbage.2 = { keeperCalled with
      heap := ⟨#[⟨0, some ⟨⟨7⟩, [.text "kept"]⟩⟩, ⟨1, none⟩], [1], 65536, 1⟩ } := by
    rw [← hkept]
    rfl
  have hresult : (call keeperCalled).bind Outcome.result? = some (some (.ref ⟨2, 0⟩)) := by
    decide +kernel
  have hresult' : (call keeperCalled.collectGarbage.2).bind Outcome.result? =
      some (some (.ref ⟨1, 1⟩)) := by
    rw [hcollected]
    decide +kernel
  have hreached : ∀ handle, Value.ref handle ∈ arguments →
      keeperCalled.heap.Reaches (keeperCalled.statics.values.filterMap Value.handle?) handle := by
    intro handle hv
    obtain rfl : handle = ⟨0, 0⟩ := by simpa [arguments] using hv
    refine .root ?_ ?_
    · rw [hstatics]
      decide
    · rw [Heap.Live, hheap]
      rfl
  have hn : keeperCalled.NoDangling := (reachable_keeperCalled.sound (by decide)).noDangling
  obtain ⟨outcome, hcall, ho⟩ := Option.bind_eq_some_iff.mp hresult
  have hroom : ∀ capacity m', outcome ≠ .error (.heap (.full capacity)) m' := by
    rintro capacity m' rfl
    cases ho
  obtain ⟨outcome', hcall', halike⟩ := collection_invisible (by decide)
    reachable_keeperCalled.attainable hn ⟨3⟩ arguments hreached hcall hroom
  exact ⟨hn, hresult, hresult', outcome, outcome', hcall, hcall', halike⟩

end ManagedCode
