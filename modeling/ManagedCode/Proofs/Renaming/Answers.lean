import ManagedCode.Proofs.Catalog.Agreement
import ManagedCode.Proofs.Renaming.Alike

/-!
# Answers of machines that mirror each other

Two machines mirror each other as far as the running method can see: the same types, declarations
and files, and static fields, a running frame and objects that are equal up to renaming. Every
question about values that are alike has answers that are alike on both.
-/

namespace ManagedCode

/-- The answers are results in the given relation or faults that are alike. -/
inductive Answered {α β : Type} (ρ : Renaming) (R : α → β → Prop) :
    Except Fault α → Except Fault β → Prop
  | ok {a : α} {b : β} (h : R a b) : Answered ρ R (.ok a) (.ok b)
  | fault {f g : Fault} (h : f.Alike ρ g) : Answered ρ R (.error f) (.error g)

section

variable {ρ : Renaming}

/-- Questions in sequence have alike answers if each has, given alike answers before it. -/
theorem Answered.bind {α β α' β' : Type} {R : α → β → Prop} {S : α' → β' → Prop}
    {x : Except Fault α} {y : Except Fault β} {f : α → Except Fault α'} {g : β → Except Fault β'}
    (h : Answered ρ R x y) (hfg : ∀ a b, R a b → Answered ρ S (f a) (g b)) :
    Answered ρ S (x >>= f) (y >>= g) := by
  cases h with
  | ok h => exact hfg _ _ h
  | fault h => exact .fault h

/-- A fault that names no handle is the same under every renaming. -/
theorem Answered.same {α : Type} {x : Except Fault α}
    (h : ∀ fault, x = .error fault → fault.handle? = none) : Answered ρ (· = ·) x x := by
  cases x with
  | ok a => exact .ok rfl
  | error fault => exact .fault (.same (h fault rfl))

/-- An error that names no handle is the same on both sides. -/
theorem answered_mapError {ε α : Type} {x : Except ε α} {f : ε → Fault}
    (h : ∀ e, (f e).handle? = none) : Answered ρ (· = ·) (x.mapError f) (x.mapError f) := by
  refine .same fun fault hf => ?_
  cases x with
  | ok a => cases hf
  | error e =>
    cases hf
    exact h e

/-! ## Computed values -/

/-- A number that was computed is alike itself. -/
theorem Machine.Computed.answered {x : Except Fault Value} (h : Machine.Computed x) :
    Answered ρ (Value.Alike ρ) x x := by
  cases x with
  | ok v => exact .ok (.number h)
  | error fault => exact .fault (.same h)

namespace Value.Alike

variable {a b v w x y : Value}

/-- Alike values are alike references, or both are none. -/
theorem toHandle (h : v.Alike ρ w) : Answered ρ (fun p q => q ∈ ρ p) v.toHandle w.toHandle := by
  cases h with
  | ref h => exact .ok h
  | number h =>
    cases v with
    | ref _ => cases h
    | _ => exact .fault (.same rfl)

/-- Alike values are the same index, or both are none. -/
theorem toIndex (h : v.Alike ρ w) : Answered ρ (· = ·) v.toIndex w.toIndex := by
  cases h with
  | ref h => exact .fault (.same rfl)
  | number h =>
    refine .same fun fault hf => ?_
    cases v <;> cases hf <;> rfl

/-- Alike values are the same 32-bit integer, or both are none. -/
theorem toInt32 (h : v.Alike ρ w) : Answered ρ (· = ·) v.toInt32 w.toInt32 := by
  cases h with
  | ref h => exact .fault (.same rfl)
  | number h =>
    refine .same fun fault hf => ?_
    cases v <;> cases hf <;> rfl

/-- The negations of alike values are alike. -/
theorem negate (h : v.Alike ρ w) : Answered ρ (Value.Alike ρ) v.negate w.negate := by
  cases h with
  | ref h => exact .fault (.same rfl)
  | number h => exact (Machine.computed_negate v).answered

/-- The complements of alike values are alike. -/
theorem complement (h : v.Alike ρ w) :
    Answered ρ (Value.Alike ρ) v.complement w.complement := by
  cases h with
  | ref h => exact .fault (.same rfl)
  | number h => exact (Machine.computed_complement v).answered

/-- The conversions of alike values are alike. -/
theorem convert (c : Conversion) (h : v.Alike ρ w) :
    Answered ρ (Value.Alike ρ) (Value.convert c v) (Value.convert c w) := by
  cases h with
  | ref h => exact .fault (.same rfl)
  | number h => exact (Machine.computed_convert c v).answered

private theorem binary_of_ref_left (op : BinaryOp) (handle : Handle) (b : Value) :
    Value.binary op (.ref handle) b = .error (operandMismatch op (.ref handle) b) := by
  cases b <;> rfl

private theorem binary_of_ref_right (op : BinaryOp) (a : Value) (handle : Handle) :
    Value.binary op a (.ref handle) = .error (operandMismatch op a (.ref handle)) := by
  cases a <;> rfl

/-- Arithmetic does not look at handles: a reference is refused by its kind. -/
theorem binary (op : BinaryOp) (ha : a.Alike ρ x) (hb : b.Alike ρ y) :
    Answered ρ (Value.Alike ρ) (Value.binary op a b) (Value.binary op x y) := by
  have hmismatch : operandMismatch op a b = operandMismatch op x y := by
    rw [operandMismatch, operandMismatch, ha.kind_eq, hb.kind_eq]
  cases ha with
  | ref ha =>
    rw [binary_of_ref_left, binary_of_ref_left, hmismatch]
    exact .fault (.same rfl)
  | number ha =>
    cases hb with
    | ref hb =>
      rw [binary_of_ref_right, binary_of_ref_right, hmismatch]
      exact .fault (.same rfl)
    | number hb => exact (Machine.computed_binary op a b).answered

/-- A comparison looks only at whether two handles are equal. -/
theorem compare (op : CompareOp) (ha : a.Alike ρ x) (hb : b.Alike ρ y) :
    Answered ρ (· = ·) (Value.compare op a b) (Value.compare op x y) := by
  cases ha with
  | ref ha =>
    cases hb with
    | ref hb =>
      have hbeq := Renaming.beq_eq ha hb
      cases op with
      | eq => exact .ok hbeq
      | ne | gtUn => exact .ok (congrArg not hbeq)
      | _ => exact .ok rfl
    | number hb =>
      cases b with
      | ref _ => cases hb
      | null => exact .ok rfl
      | _ => exact .fault (.same rfl)
  | number ha =>
    cases hb with
    | ref hb =>
      cases a with
      | ref _ => cases ha
      | null => exact .ok rfl
      | _ => exact .fault (.same rfl)
    | number hb =>
      refine .same fun fault hf => ?_
      cases a with
      | ref _ => cases ha
      | _ =>
        cases b with
        | ref _ => cases hb
        | _ => cases hf <;> rfl

end Value.Alike

/-! ## Elements -/

/-- An index has the same position among alike elements. -/
theorem Elements.Alike.position {a b : Elements} (h : a.Alike ρ b) (index : Int) :
    Answered ρ (· = ·) (a.position index) (b.position index) := by
  rw [Elements.position, Elements.position, h.size_eq]
  refine .same fun fault hf => ?_
  split at hf <;> cases hf
  rfl

/-- Items that are alike are so at each place, also behind the last one. -/
theorem alike_getD {a b : Array Value} (h : Values.Alike ρ a.toList b.toList) (i : Nat) :
    (a.getD i .null).Alike ρ (b.getD i .null) := by
  have hi := rel_getElem? h i
  rw [Array.getElem?_toList, Array.getElem?_toList] at hi
  rw [Array.getD_eq_getD_getElem?, Array.getD_eq_getD_getElem?]
  generalize a[i]? = x, b[i]? = y at hi
  cases hi with
  | none => exact .number rfl
  | some hv => exact hv

/-- Alike elements have alike values at each index. -/
theorem Elements.Alike.get {a b : Elements} (h : a.Alike ρ b) (index : Int) :
    Answered ρ (Value.Alike ρ) (a.get index) (b.get index) := by
  refine (h.position index).bind fun i j hij => ?_
  subst hij
  exact .ok (alike_getD h.values i)

/-- Alike values are taken alike as elements of a kind, or both are refused. -/
theorem Value.Alike.coerce? {v w : Value} (h : v.Alike ρ w) (kind : ElementKind) :
    Option.Rel (Value.Alike ρ) (kind.coerce? v) (kind.coerce? w) := by
  cases h with
  | ref h =>
    cases kind with
    | any => exact .some (.ref h)
    | _ => exact .none
  | number h =>
    cases hc : kind.coerce? v with
    | none => exact .none
    | some stored =>
      refine .some (.number ?_)
      have hbacked := Machine.backed_coerce hc
      cases stored with
      | ref handle =>
        have hmem := hbacked handle List.mem_cons_self
        rw [List.mem_singleton] at hmem
        rw [← hmem] at h
        cases h
      | _ => rfl

/-- Storing alike values at an index is planned alike. -/
theorem Elements.Alike.plan {a b : Elements} (h : a.Alike ρ b) (index : Int) {v w : Value}
    (hv : v.Alike ρ w) :
    Answered ρ (fun p q => p.1 = q.1 ∧ p.2.Alike ρ q.2) (a.plan index v) (b.plan index w) := by
  refine (h.position index).bind fun i j hij => ?_
  subst hij
  have hc := hv.coerce? b.kind
  rw [h.kind]
  generalize b.kind.coerce? v = x, b.kind.coerce? w = y at hc
  cases hc with
  | none =>
    dsimp only
    rw [Value.mismatch, Value.mismatch, hv.kind_eq]
    exact .fault (.same rfl)
  | some hs => exact .ok ⟨rfl, hs⟩

end

/-! ## Questions to a machine -/

namespace Machine

/-- As far as the running method can see, the machines are equal up to renaming. How arguments are
taken is not among what it can see. -/
structure Mirrors (ρ : Renaming) (m m' : Machine) : Prop where
  catalog : m.catalog.Agrees m'.catalog
  core : m.core = m'.core
  files : m.files = m'.files
  statics : m.statics.Alike ρ m'.statics
  top : Option.Rel (Frame.Alike ρ) m.calls.top? m'.calls.top?
  /-- Objects under handles that are renamed into each other. -/
  objects : ∀ handle other, other ∈ ρ handle →
    Option.Rel (Object.Alike ρ) (m.heap.get? handle) (m'.heap.get? other)

namespace Mirrors

variable {ρ : Renaming} {m m' : Machine} {handle other : Handle} {v w : Value}

/-- The same method runs on both machines. -/
theorem runningMethod_eq (h : Mirrors ρ m m') : m.runningMethod = m'.runningMethod := by
  have ht := h.top
  rw [runningMethod, runningMethod, h.catalog.methodName]
  generalize m.calls.top? = x, m'.calls.top? = y at ht
  cases ht with
  | none => rfl
  | some hf => exact congrArg m'.catalog.methodName hf.method

/-- A handle and its other name lead to alike objects. -/
theorem object (h : Mirrors ρ m m') (hh : other ∈ ρ handle) :
    Answered ρ (Object.Alike ρ) (m.object handle) (m'.object other) := by
  have ho := h.objects handle other hh
  rw [Machine.object, Machine.object, Heap.get, Heap.get]
  generalize m.heap.get? handle = x, m'.heap.get? other = y at ho
  cases ho with
  | none => exact .fault (.missing hh)
  | some ho => exact .ok ho

/-- Alike values have the same text. -/
theorem textOf (h : Mirrors ρ m m') (hv : v.Alike ρ w) :
    Answered ρ (· = ·) (m.textOf v) (m'.textOf w) := by
  cases hv with
  | ref hh =>
    refine (h.object hh).bind fun a b ho => ?_
    rw [ho.text?_eq]
    cases b.text? with
    | some text => exact .ok rfl
    | none => exact .fault (.slotKind hh)
  | number hv =>
    cases v with
    | ref _ => cases hv
    | null => exact .ok rfl
    | _ => exact .fault (.same rfl)

/-- The console shows the type of an object, never its handle. -/
theorem display (h : Mirrors ρ m m') (hv : v.Alike ρ w) :
    Answered ρ (· = ·) (m.display v) (m'.display w) := by
  cases hv with
  | ref hh =>
    refine (h.object hh).bind fun a b ho => ?_
    rw [ho.text?_eq, ho.type, h.core, h.catalog.fullName]
    cases b.text? with
    | some text => exact .ok rfl
    | none => exact .ok rfl
  | number hv =>
    cases v with
    | ref _ => cases hv
    | _ => exact .ok rfl

/-- Alike values have alike elements. -/
theorem elements (h : Mirrors ρ m m') (hv : v.Alike ρ w) :
    Answered ρ (Values.Alike ρ) (m.elements v) (m'.elements w) := by
  refine hv.toHandle.bind fun p q hpq => ?_
  refine (h.object hpq).bind fun a b ho => ?_
  have hs := ho.slot? 0
  generalize a.slot? 0 = x, b.slot? 0 = y at hs
  cases hs with
  | none => exact .fault (.slotKind hpq)
  | some hs =>
    cases hs with
    | array he => exact .ok he.values
    | list hi => exact .ok hi
    | value _ => exact .fault (.slotKind hpq)
    | text _ => exact .fault (.slotKind hpq)

/-- An array has alike elements under its other name. -/
theorem arrayOf (h : Mirrors ρ m m') (hh : other ∈ ρ handle) :
    Answered ρ (Elements.Alike ρ) (m.arrayOf handle) (m'.arrayOf other) := by
  refine (h.object hh).bind fun a b ho => ?_
  have he := ho.elements?
  generalize a.elements? = x, b.elements? = y at he
  cases he with
  | none => exact .fault (.slotKind hh)
  | some he => exact .ok he

/-- A list has alike items under its other name. -/
theorem listOf (h : Mirrors ρ m m') (hh : other ∈ ρ handle) :
    Answered ρ (fun x y => Values.Alike ρ x.toList y.toList) (m.listOf handle)
      (m'.listOf other) := by
  refine (h.object hh).bind fun a b ho => ?_
  have hi := ho.items?
  generalize a.items? = x, b.items? = y at hi
  cases hi with
  | none => exact .fault (.slotKind hh)
  | some hi => exact .ok hi

/-- A field has the same slot and alike values under the other name of its object. -/
theorem fieldOf (h : Mirrors ρ m m') (hh : other ∈ ρ handle) (name : String) :
    Answered ρ (fun p q => p.1 = q.1 ∧ p.2.Alike ρ q.2) (m.fieldOf handle name)
      (m'.fieldOf other name) := by
  refine (h.object hh).bind fun a b ho => ?_
  rw [h.catalog.fieldSlot, ho.type]
  have hslot : Answered ρ (· = ·) ((m'.catalog.fieldSlot b.type name).mapError Fault.heap)
      ((m'.catalog.fieldSlot b.type name).mapError Fault.heap) := by
    refine .same fun fault hf => ?_
    unfold Catalog.fieldSlot at hf
    split at hf <;> cases hf
    rfl
  refine hslot.bind fun i j hij => ?_
  subst hij
  have hs := ho.slot? i
  generalize a.slot? i = x, b.slot? i = y at hs
  cases hs with
  | none => exact .fault (.slotKind hh)
  | some hs =>
    cases hs with
    | value hv => exact .ok ⟨rfl, hv⟩
    | text _ => exact .fault (.slotKind hh)
    | array _ => exact .fault (.slotKind hh)
    | list _ => exact .fault (.slotKind hh)

/-- Equality looks at texts, at numbers and at whether two handles are equal. -/
theorem valuesEqual (h : Mirrors ρ m m') {a b x y : Value} (ha : a.Alike ρ x) (hb : b.Alike ρ y) :
    Answered ρ (· = ·) (m.valuesEqual a b) (m'.valuesEqual x y) := by
  have hsame : Answered ρ (· = ·) (.ok (a.same b)) (.ok (x.same y)) := .ok (ha.same_eq hb)
  cases ha with
  | ref ha =>
    cases hb with
    | ref hb =>
      refine (h.object ha).bind fun p q hpq => ?_
      refine (h.object hb).bind fun p' q' hpq' => ?_
      rw [hpq.type, hpq'.type, hpq.text?_eq, hpq'.text?_eq, h.core, Renaming.beq_eq ha hb]
      split <;> exact .ok rfl
    | number hb =>
      cases b with
      | ref _ => cases hb
      | _ => exact hsame
  | number ha =>
    cases a with
    | ref _ => cases ha
    | _ => exact hsame

/-- A search for alike values among alike ones finds the same place. -/
theorem findValue (h : Mirrors ρ m m') {wanted wanted' : Value} (hw : wanted.Alike ρ wanted')
    {vs ws : List Value} (hv : Values.Alike ρ vs ws) (start : Nat) :
    Answered ρ (· = ·) (Native.findValue m wanted start vs)
      (Native.findValue m' wanted' start ws) := by
  induction hv generalizing start with
  | nil => exact .ok rfl
  | cons hvw _ ih =>
    refine (h.valuesEqual hvw hw).bind fun equal equal' he => ?_
    subst he
    cases equal with
    | false => exact ih (start + 1)
    | true => exact .ok rfl

/-- The arguments of the running method are alike. -/
theorem arguments (h : Mirrors ρ m m') :
    Answered ρ (Values.Alike ρ) m.arguments m'.arguments := by
  have ht := h.top
  rw [Machine.arguments, Machine.arguments]
  generalize m.calls.top? = x, m'.calls.top? = y at ht
  cases ht with
  | none => exact .fault (.same rfl)
  | some hf => exact .ok hf.arguments

/-- Each argument of the running method is alike. -/
theorem argument (h : Mirrors ρ m m') (index : Nat) :
    Answered ρ (Value.Alike ρ) (m.argument index) (m'.argument index) := by
  refine h.arguments.bind fun vs ws hv => ?_
  have hi := rel_getElem? hv index
  rw [h.runningMethod_eq]
  generalize vs[index]? = x, ws[index]? = y at hi
  cases hi with
  | none => exact .fault (.same rfl)
  | some hvw => exact .ok hvw

/-- The order depends on the type of the first argument, never on its handle. -/
theorem orderArguments (h : Mirrors ρ m m') (declaring : TypeId) {vs ws : List Value}
    (hv : Values.Alike ρ vs ws) :
    Values.Alike ρ (m.orderArguments declaring vs) (m'.orderArguments declaring ws) := by
  cases hv with
  | nil => exact .nil
  | @cons v w vs ws hvw hrest =>
    have hreverse : Values.Alike ρ (v :: vs).reverse (w :: ws).reverse :=
      List.rel_reverse (.cons hvw hrest)
    cases hvw with
    | @ref handle other hh =>
      have hany : ((m.heap.get? handle).any fun object => object.type == declaring) =
          (m'.heap.get? other).any fun object => object.type == declaring := by
        have ho := h.objects handle other hh
        generalize m.heap.get? handle = x, m'.heap.get? other = y at ho
        cases ho with
        | none => rfl
        | some ho => rw [Option.any_some, Option.any_some, ho.type]
      simp only [Machine.orderArguments, hany]
      split
      · exact .cons (.ref hh) hrest
      · exact hreverse
    | number hn =>
      cases v with
      | ref _ => cases hn
      | _ => exact hreverse

end Mirrors

end Machine

end ManagedCode
