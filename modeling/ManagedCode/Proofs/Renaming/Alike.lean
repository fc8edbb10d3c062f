import Mathlib.Data.List.Forall2
import Mathlib.Data.PEquiv
import ManagedCode.Proofs.Machine.Answers

/-!
# Equal up to the names of objects

Which handle an object gets depends on what the heap did before. Two values, objects, frames or
faults are alike when they differ in the handles only, by a renaming that gives no two handles one
name. Questions asked of two machines that are alike in this sense have answers that are alike.
-/

namespace ManagedCode

/-- A renaming of some handles, in which no two of them get one name. -/
abbrev Renaming := Handle ≃. Handle

/-- The values are equal up to the renaming of a reference. -/
inductive Value.Alike (ρ : Renaming) : Value → Value → Prop
  | ref {handle other : Handle} (h : other ∈ ρ handle) : Value.Alike ρ (.ref handle) (.ref other)
  | number {v : Value} (h : v.handle? = none) : Value.Alike ρ v v

/-- Values one by one equal up to renaming. -/
abbrev Values.Alike (ρ : Renaming) : List Value → List Value → Prop :=
  List.Forall₂ (Value.Alike ρ)

/-- Elements of the same kind, whose values are alike place by place. -/
structure Elements.Alike (ρ : Renaming) (a b : Elements) : Prop where
  kind : a.kind = b.kind
  values : Values.Alike ρ a.values.toList b.values.toList

/-- Slots of the same form with values, texts, elements or items that are alike. -/
inductive Slot.Alike (ρ : Renaming) : Slot → Slot → Prop
  | value {v w : Value} (h : v.Alike ρ w) : Slot.Alike ρ (.value v) (.value w)
  | text (s : String) : Slot.Alike ρ (.text s) (.text s)
  | array {a b : Elements} (h : a.Alike ρ b) : Slot.Alike ρ (.array a) (.array b)
  | list {a b : Array Value} (h : Values.Alike ρ a.toList b.toList) :
      Slot.Alike ρ (.list a) (.list b)

/-- Objects of the same type whose slots are alike. -/
structure Object.Alike (ρ : Renaming) (a b : Object) : Prop where
  type : a.type = b.type
  slots : List.Forall₂ (Slot.Alike ρ) a.slots b.slots

/-- The frames are equal up to renaming. Who made the call does not count: no method can see it. -/
structure Frame.Alike (ρ : Renaming) (a b : Frame) : Prop where
  method : a.method = b.method
  stack : Values.Alike ρ a.stack b.stack
  locals : Values.Alike ρ a.locals.toList b.locals.toList
  arguments : Values.Alike ρ a.arguments b.arguments

/-- The same fields were stored in the same order, with values equal up to renaming. -/
def Statics.Alike (ρ : Renaming) (a b : Statics) : Prop :=
  List.Forall₂ (fun x y => x.1 = y.1 ∧ x.2.Alike ρ y.2) a.entries b.entries

/-- The faults are equal up to the renaming of the handle that they name. -/
inductive Fault.Alike (ρ : Renaming) : Fault → Fault → Prop
  | missing {handle other : Handle} (h : other ∈ ρ handle) :
      Fault.Alike ρ (.heap (.notFound handle)) (.heap (.notFound other))
  | slotKind {handle other : Handle} {field expected : String} (h : other ∈ ρ handle) :
      Fault.Alike ρ (.heap (.slotKind handle field expected))
        (.heap (.slotKind other field expected))
  | same {fault : Fault} (h : fault.handle? = none) : Fault.Alike ρ fault fault

/-- What has a name is live on both sides, and the objects are equal up to renaming. -/
def Heap.Alike (ρ : Renaming) (heap heap' : Heap) : Prop :=
  ∀ handle other, other ∈ ρ handle →
    ∃ a b, heap.get? handle = some a ∧ heap'.get? other = some b ∧ a.Alike ρ b

/-! ## Lists -/

section Lists

variable {α β : Type} {R : α → β → Prop} {as : List α} {bs : List β}

/-- Lists that are related have related items at every place, or none. -/
theorem rel_getElem? (h : List.Forall₂ R as bs) (i : Nat) : Option.Rel R as[i]? bs[i]? := by
  induction h generalizing i with
  | nil => exact .none
  | cons hab _ ih =>
    cases i with
    | zero => exact .some hab
    | succ i => exact ih i

/-- Lists that are related have related first items, or none. -/
theorem rel_head? (h : List.Forall₂ R as bs) : Option.Rel R as.head? bs.head? := by
  cases h with
  | nil => exact .none
  | cons hab _ => exact .some hab

/-- Related lists stay so when related items replace those at a place. -/
theorem forall₂_set (h : List.Forall₂ R as bs) (i : Nat) {a : α} {b : β} (hab : R a b) :
    List.Forall₂ R (as.set i a) (bs.set i b) := by
  induction h generalizing i with
  | nil => exact .nil
  | cons hxy hrest ih =>
    cases i with
    | zero => exact .cons hab hrest
    | succ i => exact .cons hxy (ih i)

/-- Related lists stay so when the items at a place are changed alike. -/
theorem forall₂_modify {f : α → α} {g : β → β} (h : List.Forall₂ R as bs)
    (hfg : ∀ a b, R a b → R (f a) (g b)) (i : Nat) :
    List.Forall₂ R (as.modify i f) (bs.modify i g) := by
  induction h generalizing i with
  | nil => simp
  | cons hxy hrest ih =>
    cases i with
    | zero => exact .cons (hfg _ _ hxy) hrest
    | succ i => exact .cons hxy (ih i)

/-- Related lists stay so when related items are inserted at a place. -/
theorem forall₂_insertIdx (h : List.Forall₂ R as bs) (i : Nat) {a : α} {b : β} (hab : R a b) :
    List.Forall₂ R (as.insertIdx i a) (bs.insertIdx i b) := by
  induction h generalizing i with
  | nil =>
    cases i with
    | zero => exact .cons hab .nil
    | succ i => exact .nil
  | cons hxy hrest ih =>
    cases i with
    | zero => exact .cons hab (.cons hxy hrest)
    | succ i => exact .cons hxy (ih i)

/-- Related lists stay so when the items at a place are removed. -/
theorem forall₂_eraseIdx (h : List.Forall₂ R as bs) (i : Nat) :
    List.Forall₂ R (as.eraseIdx i) (bs.eraseIdx i) := by
  rw [List.eraseIdx_eq_take_drop_succ, List.eraseIdx_eq_take_drop_succ]
  exact List.rel_append (List.forall₂_take i h) (List.forall₂_drop (i + 1) h)

end Lists

/-! ## More names -/

section Mono

variable {ρ ρ' : Renaming} (hle : ρ ≤ ρ')

include hle

/-- Values that are alike remain so when more objects are renamed. -/
theorem Value.Alike.mono {v w : Value} (h : v.Alike ρ w) : v.Alike ρ' w := by
  cases h with
  | ref h => exact .ref (hle _ _ h)
  | number h => exact .number h

/-- Values that may be missing remain alike when more objects are renamed. -/
theorem Value.Alike.option_mono {v? w? : Option Value} (h : Option.Rel (Value.Alike ρ) v? w?) :
    Option.Rel (Value.Alike ρ') v? w? := by
  cases h with
  | none => exact .none
  | some h => exact .some (h.mono hle)

/-- Lists of values that are alike remain so when more objects are renamed. -/
theorem Values.Alike.mono {vs ws : List Value} (h : Values.Alike ρ vs ws) :
    Values.Alike ρ' vs ws :=
  h.imp fun _ _ => Value.Alike.mono hle

/-- Elements that are alike remain so when more objects are renamed. -/
theorem Elements.Alike.mono {a b : Elements} (h : a.Alike ρ b) : a.Alike ρ' b :=
  ⟨h.kind, h.values.mono hle⟩

/-- Slots that are alike remain so when more objects are renamed. -/
theorem Slot.Alike.mono {a b : Slot} (h : a.Alike ρ b) : a.Alike ρ' b := by
  cases h with
  | value h => exact .value (h.mono hle)
  | text s => exact .text s
  | array h => exact .array (h.mono hle)
  | list h => exact .list (h.mono hle)

/-- Objects that are alike remain so when more objects are renamed. -/
theorem Object.Alike.mono {a b : Object} (h : a.Alike ρ b) : a.Alike ρ' b :=
  ⟨h.type, h.slots.imp fun _ _ => Slot.Alike.mono hle⟩

/-- Frames that are alike remain so when more objects are renamed. -/
theorem Frame.Alike.mono {a b : Frame} (h : a.Alike ρ b) : a.Alike ρ' b :=
  ⟨h.method, h.stack.mono hle, h.locals.mono hle, h.arguments.mono hle⟩

/-- Static fields that are alike remain so when more objects are renamed. -/
theorem Statics.Alike.mono {a b : Statics} (h : a.Alike ρ b) : a.Alike ρ' b :=
  List.Forall₂.imp (fun _ _ hxy => ⟨hxy.1, hxy.2.mono hle⟩) h

end Mono

/-! ## Values, objects, frames and static fields -/

section

variable {ρ : Renaming}

/-- A renaming does not change the kind of a value. -/
theorem Value.Alike.kind_eq {v w : Value} (h : v.Alike ρ w) : v.kind = w.kind := by
  cases h <;> rfl

/-- A renaming does not change which values count as false. -/
theorem Value.Alike.isFalse_eq {v w : Value} (h : v.Alike ρ w) : v.isFalse = w.isFalse := by
  cases h <;> rfl

/-- A renaming does not change which values count as true. -/
theorem Value.Alike.isTrue_eq {v w : Value} (h : v.Alike ρ w) : v.isTrue = w.isTrue := by
  cases h <;> rfl

/-- Renamed handles are equal exactly if the original ones are. -/
theorem Renaming.beq_eq {a b x y : Handle} (ha : x ∈ ρ a) (hb : y ∈ ρ b) :
    (a == b) = (x == y) := by
  rw [Bool.eq_iff_iff, beq_iff_eq, beq_iff_eq]
  constructor
  · rintro rfl
    exact Option.mem_unique ha hb
  · rintro rfl
    exact ρ.inj ha hb

/-- Two values are the same exactly if they are the same under their other names. -/
theorem Value.Alike.same_eq {a b x y : Value} (ha : a.Alike ρ x) (hb : b.Alike ρ y) :
    a.same b = x.same y := by
  cases ha with
  | ref ha =>
    cases hb with
    | ref hb => exact Renaming.beq_eq ha hb
    | number hb =>
      cases b with
      | ref _ => cases hb
      | _ => rfl
  | number ha =>
    cases hb with
    | ref hb =>
      cases a with
      | ref _ => cases ha
      | _ => rfl
    | number hb => rfl

/-- Values without references are alike by every renaming. -/
theorem alike_of_numbers {values : List Value} (h : ∀ v ∈ values, v.handle? = none) :
    Values.Alike ρ values values :=
  List.forall₂_same.mpr fun v hv => .number (h v hv)

namespace Object.Alike

variable {a b : Object}

/-- Alike objects have alike slots in each position. -/
theorem slot? (h : a.Alike ρ b) (i : Nat) : Option.Rel (Slot.Alike ρ) (a.slot? i) (b.slot? i) :=
  rel_getElem? h.slots i

/-- Alike objects have the same text, or both have none. -/
theorem text?_eq (h : a.Alike ρ b) : a.text? = b.text? := by
  have hs := h.slot? 0
  unfold Object.text?
  generalize a.slot? 0 = x, b.slot? 0 = y at hs
  cases hs with
  | none => rfl
  | some hs => cases hs <;> rfl

/-- Alike objects have alike elements, or both have none. -/
theorem elements? (h : a.Alike ρ b) :
    Option.Rel (Elements.Alike ρ) a.elements? b.elements? := by
  have hs := h.slot? 0
  unfold Object.elements?
  generalize a.slot? 0 = x, b.slot? 0 = y at hs
  cases hs with
  | none => exact .none
  | some hs =>
    cases hs with
    | array he => exact .some he
    | _ => exact .none

/-- Alike objects have alike items, or both have none. -/
theorem items? (h : a.Alike ρ b) :
    Option.Rel (fun x y => Values.Alike ρ x.toList y.toList) a.items? b.items? := by
  have hs := h.slot? 0
  unfold Object.items?
  generalize a.slot? 0 = x, b.slot? 0 = y at hs
  cases hs with
  | none => exact .none
  | some hs =>
    cases hs with
    | list hi => exact .some hi
    | _ => exact .none

/-- Alike objects stay so when alike slots replace those in a position. -/
theorem setSlot (h : a.Alike ρ b) (i : Nat) {x y : Slot} (hs : x.Alike ρ y) :
    (a.setSlot i x).Alike ρ (b.setSlot i y) :=
  ⟨h.type, forall₂_set h.slots i hs⟩

/-- Alike objects stay so when the slots in a position are changed alike. -/
theorem modifySlot (h : a.Alike ρ b) (i : Nat) {f g : Slot → Slot}
    (hfg : ∀ x y, x.Alike ρ y → (f x).Alike ρ (g y)) :
    (a.modifySlot i f).Alike ρ (b.modifySlot i g) :=
  ⟨h.type, forall₂_modify h.slots hfg i⟩

end Object.Alike

/-- Alike elements are equally many. -/
theorem Elements.Alike.size_eq {a b : Elements} (h : a.Alike ρ b) : a.size = b.size :=
  h.values.length_eq

/-- Elements stay alike when alike values are put in the same position. -/
theorem Elements.Alike.put {a b : Elements} (h : a.Alike ρ b) (position : Nat) {v w : Value}
    (hv : v.Alike ρ w) : (a.put position v).Alike ρ (b.put position w) := by
  refine ⟨h.kind, ?_⟩
  rw [Elements.put, Elements.put, Array.toList_setIfInBounds, Array.toList_setIfInBounds]
  exact forall₂_set h.values position hv

/-- Alike static fields have alike values under each name. -/
theorem Statics.Alike.get? {a b : Statics} (h : a.Alike ρ b) (type : TypeId) (name : String) :
    Option.Rel (Value.Alike ρ) (a.get? type name) (b.get? type name) := by
  unfold Statics.get?
  unfold Statics.Alike at h
  generalize a.entries = as, b.entries = bs at h
  induction h with
  | nil => exact .none
  | @cons x y _ _ hxy _ ih =>
    rw [List.lookup_cons, List.lookup_cons, hxy.1]
    cases (type, name) == y.1 with
    | true => exact .some hxy.2
    | false => exact ih

/-- Static fields stay alike when one of them gets alike values. -/
theorem Statics.Alike.set {a b : Statics} (h : a.Alike ρ b) (type : TypeId) (name : String)
    {v w : Value} (hv : v.Alike ρ w) : (a.set type name v).Alike ρ (b.set type name w) := by
  refine .cons ⟨rfl, hv⟩ (List.rel_filter ?_ h)
  intro x y hxy
  dsimp only
  rw [hxy.1]

/-- The values of alike static fields are alike in their order. -/
theorem Statics.Alike.values {a b : Statics} (h : a.Alike ρ b) :
    Values.Alike ρ a.values b.values := by
  unfold Statics.values
  rw [Values.Alike, List.forall₂_map_left_iff, List.forall₂_map_right_iff]
  exact List.Forall₂.imp (fun _ _ hxy => hxy.2) h

/-- Frames stay alike when alike values are pushed. -/
theorem Frame.Alike.push {a b : Frame} (h : a.Alike ρ b) {v w : Value} (hv : v.Alike ρ w) :
    (a.push v).Alike ρ (b.push w) :=
  ⟨h.method, .cons hv h.stack, h.locals, h.arguments⟩

/-- Alike frames give alike values and stay alike, or both are without one. -/
theorem Frame.Alike.pop? {a b : Frame} (h : a.Alike ρ b) :
    Option.Rel (fun x y => x.1.Alike ρ y.1 ∧ x.2.Alike ρ y.2) a.pop? b.pop? := by
  have hs := h.stack
  unfold Frame.pop?
  generalize hx : a.stack = x, hy : b.stack = y at hs
  cases hs with
  | nil => exact .none
  | cons hv hs => exact .some ⟨hv, h.method, hs, h.locals, h.arguments⟩

/-- Frames stay alike with other stacks that are alike. -/
theorem Frame.Alike.withStack {a b : Frame} (h : a.Alike ρ b) {x y : List Value}
    (hs : Values.Alike ρ x y) : Frame.Alike ρ { a with stack := x } { b with stack := y } :=
  ⟨h.method, hs, h.locals, h.arguments⟩

end

end ManagedCode
