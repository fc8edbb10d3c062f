import ManagedCode.Proofs.Renaming.Lockstep

/-!
# Machines with the same objects

Where every object has the same handle on both machines, values, objects and frames that are alike
are equal. Twins are machines that differ at most in their frames and options. A relation between
machines with the same objects survives each change that is made on both if it survives changes of
what they share and of their frames; no fault has to be excused.
-/

namespace ManagedCode

/-! ## Objects that keep their names -/

/-- Without renaming, values are alike exactly if they are equal. -/
theorem Value.alike_refl_iff {v w : Value} : v.Alike (PEquiv.refl Handle) w ↔ v = w := by
  constructor
  · intro h
    cases h with
    | ref h =>
      obtain rfl := Option.some.inj h
      rfl
    | number _ => rfl
  · rintro rfl
    cases v with
    | ref handle => exact .ref rfl
    | _ => exact .number rfl

/-- Without renaming, being alike is being equal. -/
theorem Value.alike_refl : Value.Alike (PEquiv.refl Handle) = Eq := by
  funext v w
  exact propext Value.alike_refl_iff

/-- Without renaming, lists of values are alike exactly if they are equal. -/
theorem Values.alike_refl_iff {vs ws : List Value} :
    Values.Alike (PEquiv.refl Handle) vs ws ↔ vs = ws := by
  rw [Values.Alike, Value.alike_refl, List.forall₂_eq_eq_eq]

/-- Without renaming, values that may be missing are alike exactly if they are equal. -/
theorem Value.option_alike_refl_iff {v? w? : Option Value} :
    Option.Rel (Value.Alike (PEquiv.refl Handle)) v? w? ↔ v? = w? := by
  constructor
  · intro h
    cases h with
    | none => rfl
    | some h => rw [Value.alike_refl_iff.mp h]
  · rintro rfl
    cases v? with
    | none => exact .none
    | some v => exact .some (Value.alike_refl_iff.mpr rfl)

/-- Without renaming, slots are alike exactly if they are equal. -/
theorem Slot.alike_refl_iff {a b : Slot} : a.Alike (PEquiv.refl Handle) b ↔ a = b := by
  constructor
  · intro h
    cases h with
    | value h => rw [Value.alike_refl_iff.mp h]
    | text s => rfl
    | @array x y h =>
      obtain ⟨hkind, hvalues⟩ := h
      have hv : x.values = y.values := Array.toList_inj.mp (Values.alike_refl_iff.mp hvalues)
      cases x
      cases y
      cases hkind
      cases hv
      rfl
    | list h => rw [Array.toList_inj.mp (Values.alike_refl_iff.mp h)]
  · rintro rfl
    cases a with
    | value v => exact .value (Value.alike_refl_iff.mpr rfl)
    | text s => exact .text s
    | array elements => exact .array ⟨rfl, Values.alike_refl_iff.mpr rfl⟩
    | list items => exact .list (Values.alike_refl_iff.mpr rfl)

/-- Without renaming, objects are alike exactly if they are equal. -/
theorem Object.alike_refl_iff {a b : Object} : a.Alike (PEquiv.refl Handle) b ↔ a = b := by
  have hslots : Slot.Alike (PEquiv.refl Handle) = Eq := by
    funext x y
    exact propext Slot.alike_refl_iff
  constructor
  · rintro ⟨htype, hs⟩
    rw [hslots, List.forall₂_eq_eq_eq] at hs
    cases a
    cases b
    cases htype
    cases hs
    rfl
  · rintro rfl
    refine ⟨rfl, ?_⟩
    rw [hslots, List.forall₂_eq_eq_eq]

/-- Frames of calls from one method. -/
theorem Frame.alike_refl_iff {a b : Frame} (hc : a.caller = b.caller) :
    a.Alike (PEquiv.refl Handle) b ↔ a = b := by
  constructor
  · rintro ⟨hmethod, hstack, hlocals, harguments⟩
    have hl : a.locals = b.locals := Array.toList_inj.mp (Values.alike_refl_iff.mp hlocals)
    have hs := Values.alike_refl_iff.mp hstack
    have ha := Values.alike_refl_iff.mp harguments
    cases a
    cases b
    cases hc
    cases hmethod
    cases hs
    cases hl
    cases ha
    rfl
  · rintro rfl
    have hsame : ∀ values, Values.Alike (PEquiv.refl Handle) values values := fun _ =>
      Values.alike_refl_iff.mpr rfl
    exact ⟨rfl, hsame _, hsame _, hsame _⟩

/-- Static fields are alike themselves. -/
theorem Statics.alike_refl (statics : Statics) : statics.Alike (PEquiv.refl Handle) statics :=
  List.forall₂_same.mpr fun _ _ => ⟨rfl, Value.alike_refl_iff.mpr rfl⟩

/-- Without renaming, faults that are alike are equal. -/
theorem Fault.eq_of_alike_refl {f g : Fault} (h : f.Alike (PEquiv.refl Handle) g) : f = g := by
  cases h with
  | missing h => rw [Option.some.inj h]
  | slotKind h => rw [Option.some.inj h]
  | same _ => rfl

/-! ## Twins -/

namespace Machine

/-- The machines agree in all but their frames and options. -/
structure Twins (m m' : Machine) : Prop where
  catalog : m.catalog = m'.catalog
  core : m.core = m'.core
  heap : m.heap = m'.heap
  statics : m.statics = m'.statics
  output : m.output = m'.output
  files : m.files = m'.files

end Machine

/-- Machines in the relation have the same objects and mirror each other, and the relation survives
every equal change. -/
structure TwinRelation (E : Machine → Machine → Prop) : Prop where
  catalog {m m' : Machine} (h : E m m') : m.catalog.Agrees m'.catalog
  core {m m' : Machine} (h : E m m') : m.core = m'.core
  heap {m m' : Machine} (h : E m m') : m.heap = m'.heap
  statics {m m' : Machine} (h : E m m') : m.statics = m'.statics
  output {m m' : Machine} (h : E m m') : m.output = m'.output
  files {m m' : Machine} (h : E m m') : m.files = m'.files
  top {m m' : Machine} (h : E m m') :
    Option.Rel (Frame.Alike (PEquiv.refl Handle)) m.calls.top? m'.calls.top?
  maxArrayLength {m m' : Machine} (h : E m m') :
    m.options.maxArrayLength = m'.options.maxArrayLength
  depth {m m' : Machine} (h : E m m') : m.calls.depth = m'.calls.depth
  maxDepth {m m' : Machine} (h : E m m') : m.calls.maxDepth = m'.calls.maxDepth
  setHeap {m m' : Machine} (h : E m m') (heap : Heap) : E { m with heap } { m' with heap }
  setStatics {m m' : Machine} (h : E m m') (statics : Statics) :
    E { m with statics } { m' with statics }
  setOutput {m m' : Machine} (h : E m m') (output : String) :
    E { m with output } { m' with output }
  setFiles {m m' : Machine} (h : E m m') (files : Files) : E { m with files } { m' with files }
  modifyTop {m m' : Machine} {f g : Frame → Frame} (h : E m m')
    (hfg : ∀ a b, m.calls.top? = some a → m'.calls.top? = some b →
      (f a).Alike (PEquiv.refl Handle) (g b) ∧ (f a).caller = a.caller ∧
        (g b).caller = b.caller) :
    E { m with calls := m.calls.modifyTop f } { m' with calls := m'.calls.modifyTop g }
  withFrame {m m' : Machine} (h : E m m') (id : MethodId) (values : List Value) :
    E (m.withFrame id values) (m'.withFrame id values)
  exitFrame {m₀ m₀' m m' : Machine} (hbefore : E m₀ m₀') (h : E m m')
    (hd : m.calls.depth = m₀.calls.depth + 1) : E m.exitFrame m'.exitFrame
  popLastExited {m m' : Machine} {frame frame' : Frame} {v w : Value} (h : E m m')
    (hx : m.calls.lastExited = some (frame.push v))
    (hy : m'.calls.lastExited = some (frame'.push w)) :
    E { m with calls := { m.calls with lastExited := some frame } }
      { m' with calls := { m'.calls with lastExited := some frame' } }

/-- The machines are in the relation, and every object has the same handle on both. -/
def SameHandles (E : Machine → Machine → Prop) (ρ : Renaming) (m m' : Machine) : Prop :=
  ρ = PEquiv.refl Handle ∧ E m m'

namespace TwinRelation

open Machine

variable {E : Machine → Machine → Prop} {m m' : Machine}

/-- Twins mirror each other without any renaming. -/
theorem mirrors (he : TwinRelation E) (h : E m m') : m.Mirrors (PEquiv.refl Handle) m' where
  catalog := he.catalog h
  core := he.core h
  files := he.files h
  statics := he.statics h ▸ Statics.alike_refl m.statics
  top := he.top h
  objects handle other hh := by
    obtain rfl := Option.some.inj hh
    rw [he.heap h]
    cases m'.heap.get? handle with
    | none => exact .none
    | some object => exact .some (Object.alike_refl_iff.mpr rfl)

/-- Machines in such a relation stay in it along every computation. -/
theorem parallel (he : TwinRelation E) : Parallel (fun _ => False) (SameHandles E) where
  mirrors hm := hm.1 ▸ he.mirrors hm.2
  modifyTop := by
    rintro _ m m' f g ⟨rfl, hm⟩ hfg
    exact ⟨rfl, he.modifyTop hm hfg⟩
  store := by
    rintro _ m m' a b ⟨rfl, hm⟩ hab
    obtain rfl := Object.alike_refl_iff.mp hab
    unfold Exec.store
    rw [← he.heap hm]
    split
    · exact .fault le_rfl ⟨rfl, hm⟩ (.same rfl)
    · exact .ok le_rfl ⟨rfl, he.setHeap hm _⟩ rfl
  checkLength := by
    rintro _ m m' length ⟨rfl, hm⟩
    refine .query ⟨rfl, hm⟩ ?_
    rw [checkArrayLength, checkArrayLength, arrayLimit, arrayLimit, he.maxArrayLength hm]
    refine .same fun fault hf => ?_
    split at hf
    · cases hf
      rfl
    · split at hf <;> cases hf
      rfl
  modifyObject := by
    rintro _ m m' handle other f g ⟨rfl, hm⟩ hh hfg
    obtain rfl := Option.some.inj hh
    -- Each object is alike to itself, so both machines make the same change.
    obtain rfl : f = g := funext fun a =>
      Object.alike_refl_iff.mp (hfg a a (Object.alike_refl_iff.mpr rfl))
    rw [← he.heap hm]
    exact ⟨rfl, he.setHeap hm _⟩
  setStatic := by
    rintro _ m m' v w type name ⟨rfl, hm⟩ hv
    obtain rfl := Value.alike_refl_iff.mp hv
    rw [← he.statics hm]
    exact ⟨rfl, he.setStatics hm _⟩
  write := by
    rintro _ m m' text ⟨rfl, hm⟩
    rw [← he.output hm]
    exact ⟨rfl, he.setOutput hm _⟩
  setFiles files hm := ⟨hm.1, he.setFiles hm.2 files⟩
  enter := by
    rintro _ m m' vs ws id ⟨rfl, hm⟩ hv
    obtain rfl := Values.alike_refl_iff.mp hv
    rw [enter_apply, enter_apply, he.depth hm, he.maxDepth hm]
    split
    · exact .fault le_rfl ⟨rfl, hm⟩ (.same rfl)
    · exact .ok le_rfl ⟨rfl, he.withFrame hm id vs⟩ rfl
  exitFrame hbefore hm hd _ := ⟨hm.1, he.exitFrame hbefore.2 hm.2 hd⟩
  popLastExited hm hx hy := ⟨hm.1, he.popLastExited hm.2 hx hy⟩

end TwinRelation

end ManagedCode
