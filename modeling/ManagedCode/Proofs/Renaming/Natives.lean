import ManagedCode.Execution.Run
import ManagedCode.Proofs.Renaming.Pairs

/-!
# Native behaviours do the same up to renaming

Every native behaviour is paired with itself. What a native shows of an object on the console, how
it compares objects and where it finds one in a list depends on texts, types and the identity of
objects, never on which handles they have.
-/

namespace ManagedCode

namespace Exec

variable {ρ : Renaming}

/-- Something paired done for each item of two lists. The results are alike one by one, by the
renaming that holds at the end. -/
theorem paired_mapM {α β : Type} {S : Renaming → α → α → Prop} {R : Renaming → β → β → Prop}
    {f : α → Exec β} (hS : ∀ {ρ ρ'}, ρ ≤ ρ' → ∀ {a b}, S ρ a b → S ρ' a b)
    (hR : ∀ {ρ ρ'}, ρ ≤ ρ' → ∀ {a b}, R ρ a b → R ρ' a b)
    (hf : ∀ ρ a b, S ρ a b → Paired ρ (f a) (f b) R) {as bs : List α}
    (h : List.Forall₂ (S ρ) as bs) :
    Paired ρ (as.mapM f) (bs.mapM f) fun ρ => List.Forall₂ (R ρ) := by
  induction as generalizing ρ bs with
  | nil =>
    cases h
    rw [List.mapM_nil]
    exact .done .nil
  | cons a as ih =>
    cases h with
    | cons hab hrest =>
      rw [List.mapM_cons, List.mapM_cons]
      refine .bind (hf _ _ _ hab) fun _ hle₁ _ _ hr => ?_
      refine .bind (ih (hrest.imp fun _ _ => hS hle₁)) fun _ hle₂ _ _ hrs => ?_
      exact .done (.cons (hR hle₂ hr) hrs)

/-- A string object for each of some items. -/
theorem paired_allocStrings {α : Type} (text : α → String) (items : List α) :
    Paired ρ (items.mapM fun item => allocString (text item))
      (items.mapM fun item => allocString (text item)) Values.Alike := by
  refine paired_mapM (S := Same) (fun _ _ _ h => h) (fun hle _ _ h => h.mono hle) ?_
    (List.forall₂_same.mpr fun _ _ => rfl)
  rintro _ _ _ rfl
  exact paired_allocString _

/-- The same fault of a native behaviour is raised on both sides. -/
theorem paired_fail {α : Type} {R : Renaming → α → α → Prop} (message : String) :
    Paired ρ (fail message : Exec α) (fail message) R := by
  refine .query fun m m' hm => ?_
  rw [hm.runningMethod_eq]
  exact .fault (.same rfl)

/-- A file has the same text on both sides. -/
theorem paired_readFile (path : String) : Paired ρ (readFile path) (readFile path) Same := by
  refine .query fun m m' hm => ?_
  rw [hm.files]
  exact answered_mapError fun _ => rfl

end Exec

namespace Native

open Exec Machine

variable {ρ : Renaming} {v w : Value}

/-! ## Arguments -/

/-- The arguments are alike on both sides. -/
theorem paired_arguments : Paired ρ (query Machine.arguments) (query Machine.arguments)
    Values.Alike :=
  .query fun _ _ hm => hm.arguments

/-- Each argument is alike on both sides. -/
theorem paired_argument (index : Nat) :
    Paired ρ (argument index) (argument index) Value.Alike :=
  .query fun _ _ hm => hm.argument index

/-- Alike values are shown alike. -/
theorem paired_display (h : v.Alike ρ w) :
    Paired ρ (query (·.display v)) (query (·.display w)) Same :=
  .query fun _ _ hm => hm.display h

/-- Alike values have the same text. -/
theorem paired_textOf (h : v.Alike ρ w) :
    Paired ρ (query (·.textOf v)) (query (·.textOf w)) Same :=
  .query fun _ _ hm => hm.textOf h

/-- Alike values have alike elements. -/
theorem paired_elements (h : v.Alike ρ w) :
    Paired ρ (query (·.elements v)) (query (·.elements w)) Values.Alike :=
  .query fun _ _ hm => hm.elements h

/-- An argument has the same text on both sides. -/
theorem paired_textArgument (index : Nat) :
    Paired ρ (textArgument index) (textArgument index) Same :=
  .bind (paired_argument index) fun _ _ _ _ hv => paired_textOf hv

/-- An argument is shown alike on both sides. -/
theorem paired_displayArgument (index : Nat) :
    Paired ρ (displayArgument index) (displayArgument index) Same :=
  .bind (paired_argument index) fun _ _ _ _ hv => paired_display hv

/-- The receiver of one side is that of the other under its other name. -/
theorem paired_receiver : Paired ρ receiver receiver Named :=
  .bind (paired_argument 0) fun _ _ _ _ hv => paired_check hv.toHandle

/-- The receivers and their items, if they are lists. -/
def ItemsAlike (ρ : Renaming) (found other : Handle × Array Value) : Prop :=
  Named ρ found.1 other.1 ∧ Values.Alike ρ found.2.toList other.2.toList

/-- The receivers have alike items. -/
theorem paired_receiverItems : Paired ρ receiverItems receiverItems ItemsAlike := by
  refine .bind paired_receiver fun _ _ _ _ hh => ?_
  refine .bind (R := fun ρ a b => Values.Alike ρ a.toList b.toList)
    (.query fun _ _ hm => hm.listOf hh) fun _ hle _ _ hi => ?_
  exact .done ⟨hle _ _ hh, hi⟩

/-- Both sides make a string of the same text and push it. -/
theorem paired_pushText (text : String) : Paired ρ (pushText text) (pushText text) Same :=
  paired_push_of (paired_allocString text)

/-- Both sides make an array of strings of the same texts and push it. -/
theorem paired_pushTexts (texts : List (List Char)) :
    Paired ρ (pushTexts texts) (pushTexts texts) Same := by
  refine .bind (paired_allocStrings String.ofList texts) fun _ _ vs ws hv => ?_
  exact paired_push_of (paired_allocArray ⟨rfl, hv⟩)

/-- Each of some values on the console. -/
theorem paired_displayAll {vs ws : List Value} (h : Values.Alike ρ vs ws) :
    Paired ρ (vs.mapM fun value => query (·.display value))
      (ws.mapM fun value => query (·.display value)) Same := by
  have htexts := paired_mapM (S := Value.Alike) (R := Same) (fun hle _ _ h => h.mono hle)
    (fun _ _ _ h => h) (fun _ _ _ hv => paired_display hv) h
  refine htexts.imp fun _ texts texts' ht => ?_
  show texts = texts'
  rw [← List.forall₂_eq_eq_eq]
  exact ht

/-! ## Strings and numbers -/

/-- A selection that leaves all references out does not depend on their names. -/
private theorem filterMap_eq {β : Type} {f : Value → Option β} {vs ws : List Value}
    (h : Values.Alike ρ vs ws) (hf : ∀ handle, f (.ref handle) = none) :
    vs.filterMap f = ws.filterMap f := by
  induction h with
  | nil => rfl
  | cons hvw _ ih =>
    cases hvw with
    | ref _ => rw [List.filterMap_cons, List.filterMap_cons, hf, hf, ih]
    | number _ => rw [List.filterMap_cons, List.filterMap_cons, ih]

/-- Both sides split at the same characters. -/
theorem paired_separators : Paired ρ separators separators Same := by
  refine .bind paired_arguments fun _ _ vs ws hv => ?_
  cases hv with
  | nil => exact .done rfl
  | cons _ hrest =>
    cases hrest with
    | nil => exact .done rfl
    | @cons v w _ _ hvw _ =>
      cases hvw with
      | ref hh =>
        refine .bind (paired_elements (.ref hh)) fun _ _ _ _ hvalues => .done ?_
        -- Only integers are separators.
        exact filterMap_eq hvalues fun _ => rfl
      | number hn =>
        cases v with
        | ref _ => cases hn
        | _ => exact .done rfl

/-- Texts are equal on one side exactly if they are on the other. -/
theorem paired_equalTexts {a b x y : Value} (ha : a.Alike ρ x) (hb : b.Alike ρ y) :
    Paired ρ (equalTexts a b) (equalTexts x y) Same := by
  have htexts : Paired ρ
      (do
        let s ← query (·.textOf a)
        let t ← query (·.textOf b)
        return s == t)
      (do
        let s ← query (·.textOf x)
        let t ← query (·.textOf y)
        return s == t) Same := by
    refine .bind (paired_textOf ha) fun _ hle s _ hs => ?_
    refine .bind (paired_textOf (hb.mono hle)) fun _ _ t _ ht => ?_
    cases hs
    cases ht
    exact .done rfl
  cases ha with
  | ref ha =>
    cases hb with
    | ref hb => exact htexts
    | number hb =>
      cases b with
      | ref _ => cases hb
      | null => exact .done rfl
      | _ => exact htexts
  | number ha =>
    cases a with
    | ref _ => cases ha
    | null =>
      cases hb with
      | ref hb => exact .done rfl
      | number hb => cases b <;> exact .done rfl
    | _ =>
      cases hb with
      | ref hb => exact htexts
      | number hb =>
        cases b with
        | ref _ => cases hb
        | null => exact .done rfl
        | _ => exact htexts

/-- A numeral is read alike on both sides. -/
theorem paired_parseInt32 (text : String) : Paired ρ (parseInt32 text) (parseInt32 text) Same := by
  unfold parseInt32
  split
  · exact .push (.number rfl)
  · exact paired_fail _

/-! ## Lists -/

/-- A position in a list does not depend on names of objects. -/
theorem answered_position (index : Int64) (limit length : Nat) :
    Answered ρ (· = ·) (position index limit length) (position index limit length) := by
  refine .same fun fault hf => ?_
  unfold position at hf
  split at hf <;> cases hf
  rfl

/-- Alike values give the same position. -/
theorem paired_positionOf (h : v.Alike ρ w) (length : Nat) (inclusive : Bool) :
    Paired ρ (positionOf v length inclusive) (positionOf w length inclusive) Same := by
  refine paired_check (h.toIndex.bind fun index _ hi => ?_)
  cases hi
  exact answered_position ..

/-- What is done at a position in the items of a list. -/
theorem paired_atPosition (h : v.Alike ρ w) (inclusive : Bool) {items items' : Array Value}
    (hi : Values.Alike ρ items.toList items'.toList) {f g : Nat → Exec Unit}
    (hf : ∀ ρ', ρ ≤ ρ' → ∀ position, Paired ρ' (f position) (g position) Same) :
    Paired ρ (positionOf v items.size inclusive >>= f) (positionOf w items'.size inclusive >>= g)
      Same := by
  have hsize : items.size = items'.size := hi.length_eq
  rw [hsize]
  refine .bind (paired_positionOf h _ inclusive) fun ρ' hle position _ hp => ?_
  cases hp
  exact hf ρ' hle position

/-- Both sides have the same range. -/
theorem paired_rangeArguments : Paired ρ rangeArguments rangeArguments Same := by
  refine .bind (paired_argument 1) fun _ _ _ _ hindex => ?_
  refine .bind (paired_argument 2) fun _ hle₁ _ _ hcount => ?_
  refine .bind paired_receiverItems fun _ hle₂ ⟨_, items⟩ ⟨_, items'⟩ hi => ?_
  have hsize : items.size = items'.size := hi.2.length_eq
  dsimp only
  rw [hsize]
  refine .bind (paired_positionOf (hindex.mono (hle₁.trans hle₂)) _ true)
    fun _ hle₃ start _ hs => ?_
  cases hs
  refine .bind (paired_check (R := Same) (hcount.mono (hle₂.trans hle₃)).toIndex)
    fun _ _ count _ hc => ?_
  cases hc
  refine .bind (paired_check (R := Same) (answered_position ..)) fun _ _ stop _ hstop => ?_
  cases hstop
  split
  · exact paired_check (.fault (.same rfl))
  · exact .done rfl

/-- Both sides find the argument at the same place. -/
theorem paired_findArgument : Paired ρ findArgument findArgument Same := by
  refine .bind (paired_argument 1) fun _ _ _ _ hwanted => ?_
  refine .bind (paired_argument 0) fun _ hle₁ _ _ hcontainer => ?_
  refine .bind (paired_elements hcontainer) fun _ hle₂ _ _ hvalues => ?_
  exact .query fun _ _ hm => hm.findValue (hwanted.mono (hle₁.trans hle₂)) hvalues 0

/-- What is left to check once the capacity is known. -/
private theorem paired_checkLimit {handle other : Handle} (hh : Named ρ handle other)
    (length : Int) :
    Paired ρ
      (do
        let _ ← query (·.checkArrayLength length)
        let _ ← query (·.listOf handle))
      (do
        let _ ← query (·.checkArrayLength length)
        let _ ← query (·.listOf other)) Same := by
  refine .bind (.checkLength length) fun _ hle _ _ _ => ?_
  refine .bind (R := fun ρ a b => Values.Alike ρ a.toList b.toList)
    (.query fun _ _ hm => hm.listOf (hle _ _ hh)) fun _ _ _ _ _ => ?_
  exact .done rfl

/-- A capacity is allowed on one side exactly if it is on the other. -/
theorem paired_checkCapacity : Paired ρ checkCapacity checkCapacity Same := by
  refine .bind paired_receiver fun _ _ _ _ hh => .bind paired_arguments fun _ hle₁ _ _ hv => ?_
  cases hv with
  | nil => exact .done rfl
  | cons _ hrest =>
    cases hrest with
    | nil => exact .done rfl
    | cons hcapacity _ =>
      refine .bind (paired_check (R := Same) hcapacity.toIndex) fun _ hle₂ capacity _ hc => ?_
      cases hc
      dsimp only
      split
      · refine .bind (R := Same) (paired_fail _) fun _ hle₃ _ _ _ => ?_
        exact paired_checkLimit (hle₃ _ _ (hle₂ _ _ (hle₁ _ _ hh))) _
      · exact paired_checkLimit (hle₂ _ _ (hle₁ _ _ hh)) _

private theorem toList_insertIdxIfInBounds (items : Array Value) (position : Nat) (v : Value) :
    (items.insertIdxIfInBounds position v).toList = items.toList.insertIdx position v := by
  unfold Array.insertIdxIfInBounds
  split
  · rw [Array.toList_insertIdx]
  · rename_i hp
    rw [List.insertIdx_of_length_lt (Nat.lt_of_not_le hp)]

section

variable {items items' : Array Value} (h : Values.Alike ρ items.toList items'.toList)

include h

private theorem alike_extract (start stop : Nat) :
    Values.Alike ρ (items.extract start stop).toList (items'.extract start stop).toList := by
  rw [Array.toList_extract, Array.toList_extract]
  exact List.forall₂_take _ (List.forall₂_drop _ h)

private theorem alike_setIfInBounds (position : Nat) (hv : v.Alike ρ w) :
    Values.Alike ρ (items.setIfInBounds position v).toList
      (items'.setIfInBounds position w).toList := by
  rw [Array.toList_setIfInBounds, Array.toList_setIfInBounds]
  exact forall₂_set h position hv

private theorem alike_insertIdxIfInBounds (position : Nat) (hv : v.Alike ρ w) :
    Values.Alike ρ (items.insertIdxIfInBounds position v).toList
      (items'.insertIdxIfInBounds position w).toList := by
  rw [toList_insertIdxIfInBounds, toList_insertIdxIfInBounds]
  exact forall₂_insertIdx h position hv

private theorem alike_eraseIdxIfInBounds (position : Nat) :
    Values.Alike ρ (items.eraseIdxIfInBounds position).toList
      (items'.eraseIdxIfInBounds position).toList := by
  rw [Array.toList_eraseIdxIfInBounds, Array.toList_eraseIdxIfInBounds]
  exact forall₂_eraseIdx h position

end

/-- Every native behaviour does the same up to renaming. -/
theorem paired_run (native : Native) : Paired ρ native.run native.run Same := by
  cases native with
  | objectConstruct => exact .done rfl
  | objectToString =>
    refine .bind (paired_displayArgument 0) fun _ _ text _ ht => ?_
    cases ht
    exact paired_pushText text
  | objectEquals =>
    refine .bind (paired_argument 0) fun _ _ _ _ ha => ?_
    refine .bind (paired_argument 1) fun _ hle _ _ hb => ?_
    refine .bind (R := Same) (.query fun _ _ hm => hm.valuesEqual (ha.mono hle) hb)
      fun _ _ equal _ he => ?_
    cases he
    exact .push (.number rfl)
  | stringConcat =>
    refine .bind paired_arguments fun _ _ _ _ hv => ?_
    refine .bind (paired_displayAll hv) fun _ _ texts _ ht => ?_
    cases ht
    exact paired_pushText _
  | stringFormat =>
    refine .bind (paired_textArgument 0) fun _ _ template _ ht => ?_
    refine .bind (paired_displayArgument 1) fun _ _ text _ hx => ?_
    cases ht
    cases hx
    exact paired_pushText _
  | stringJoin =>
    refine .bind (paired_textArgument 0) fun _ _ separator _ hs => ?_
    refine .bind (paired_argument 1) fun _ _ _ _ hparts => ?_
    refine .bind (paired_elements hparts) fun _ _ _ _ hv => ?_
    refine .bind (paired_displayAll hv) fun _ _ texts _ ht => ?_
    cases hs
    cases ht
    exact paired_pushText _
  | stringSplit =>
    refine .bind (paired_textArgument 0) fun _ _ text _ ht => ?_
    refine .bind paired_separators fun _ _ separators _ hs => ?_
    cases ht
    cases hs
    exact paired_pushTexts _
  | stringLength =>
    refine .bind (paired_textArgument 0) fun _ _ text _ ht => ?_
    cases ht
    exact .push (.number rfl)
  | stringEquality =>
    refine .bind (paired_argument 0) fun _ _ _ _ ha => ?_
    refine .bind (paired_argument 1) fun _ hle _ _ hb => ?_
    refine .bind (paired_equalTexts (ha.mono hle) hb) fun _ _ equal _ he => ?_
    cases he
    exact .push (.number rfl)
  | int32Parse =>
    refine .bind (paired_textArgument 0) fun _ _ text _ ht => ?_
    cases ht
    exact paired_parseInt32 text
  | listConstruct => exact paired_checkCapacity
  | listAdd =>
    refine .bind (paired_argument 1) fun _ _ _ _ hitem => ?_
    refine .bind paired_receiverItems fun _ hle ⟨_, items⟩ ⟨_, items'⟩ hi => ?_
    refine paired_setItems hi.1 ?_
    rw [Array.toList_push, Array.toList_push]
    exact List.rel_append hi.2 (.cons (hitem.mono hle) .nil)
  | listAddRange =>
    refine .bind (paired_argument 1) fun _ _ _ _ hrange => ?_
    refine .bind (paired_elements hrange) fun _ _ _ _ hadded => ?_
    refine .bind paired_receiverItems fun _ hle ⟨_, items⟩ ⟨_, items'⟩ hi => ?_
    refine paired_setItems hi.1 ?_
    rw [Array.toList_append, Array.toList_append]
    exact List.rel_append hi.2 (hadded.mono hle)
  | listCount =>
    refine .bind paired_receiverItems fun _ _ ⟨_, items⟩ ⟨_, items'⟩ hi => ?_
    have hsize : items.size = items'.size := hi.2.length_eq
    dsimp only
    rw [hsize]
    exact .push (.number rfl)
  | listGetItem =>
    refine .bind (paired_argument 1) fun _ _ _ _ hindex => ?_
    refine .bind paired_receiverItems fun _ hle ⟨_, items⟩ ⟨_, items'⟩ hi => ?_
    refine paired_atPosition (hindex.mono hle) false hi.2 fun _ hle' position => ?_
    exact .push (alike_getD (hi.2.mono hle') position)
  | listSetItem =>
    refine .bind (paired_argument 1) fun _ _ _ _ hindex => ?_
    refine .bind (paired_argument 2) fun _ hle₁ _ _ hitem => ?_
    refine .bind paired_receiverItems fun _ hle₂ ⟨_, items⟩ ⟨_, items'⟩ hi => ?_
    refine paired_atPosition (hindex.mono (hle₁.trans hle₂)) false hi.2 fun _ hle₃ position => ?_
    exact paired_setItems (hle₃ _ _ hi.1)
      (alike_setIfInBounds (hi.2.mono hle₃) position (hitem.mono (hle₂.trans hle₃)))
  | listGetRange =>
    refine .bind paired_rangeArguments fun _ _ range _ hr => ?_
    cases hr
    refine .bind paired_receiverItems fun _ _ ⟨_, items⟩ ⟨_, items'⟩ hi => ?_
    exact paired_push_of (paired_allocList (alike_extract hi.2 range.1 range.2))
  | listIndexOf =>
    refine .bind paired_findArgument fun _ _ found _ hf => ?_
    cases hf
    cases found <;> exact .push (.number rfl)
  | listContains =>
    refine .bind paired_findArgument fun _ _ found _ hf => ?_
    cases hf
    exact .push (.number rfl)
  | listInsert =>
    refine .bind (paired_argument 1) fun _ _ _ _ hindex => ?_
    refine .bind (paired_argument 2) fun _ hle₁ _ _ hitem => ?_
    refine .bind paired_receiverItems fun _ hle₂ ⟨_, items⟩ ⟨_, items'⟩ hi => ?_
    refine paired_atPosition (hindex.mono (hle₁.trans hle₂)) true hi.2 fun _ hle₃ position => ?_
    exact paired_setItems (hle₃ _ _ hi.1)
      (alike_insertIdxIfInBounds (hi.2.mono hle₃) position (hitem.mono (hle₂.trans hle₃)))
  | listRemoveAt =>
    refine .bind (paired_argument 1) fun _ _ _ _ hindex => ?_
    refine .bind paired_receiverItems fun _ hle ⟨_, items⟩ ⟨_, items'⟩ hi => ?_
    refine paired_atPosition (hindex.mono hle) false hi.2 fun _ hle' position => ?_
    exact paired_setItems (hle' _ _ hi.1) (alike_eraseIdxIfInBounds (hi.2.mono hle') position)
  | listRemoveRange =>
    refine .bind paired_rangeArguments fun _ _ range _ hr => ?_
    cases hr
    refine .bind paired_receiverItems fun _ _ ⟨_, items⟩ ⟨_, items'⟩ hi => ?_
    have hsize : items.size = items'.size := hi.2.length_eq
    refine paired_setItems hi.1 ?_
    rw [Array.toList_append, Array.toList_append, hsize]
    exact List.rel_append (alike_extract hi.2 _ _) (alike_extract hi.2 _ _)
  | listClear =>
    exact .bind paired_receiverItems fun _ _ _ _ hi => paired_setItems hi.1 .nil
  | fileReadAllLines =>
    refine .bind (paired_textArgument 0) fun _ _ path _ hp => ?_
    cases hp
    refine .bind (paired_readFile path) fun _ _ text _ ht => ?_
    cases ht
    exact paired_pushTexts _
  | fileWriteAllText =>
    refine .bind (paired_textArgument 0) fun _ _ path _ hp => ?_
    refine .bind (paired_textArgument 1) fun _ _ text _ ht => ?_
    cases hp
    cases ht
    exact .writeFile path text
  | consoleWriteLine =>
    refine .bind paired_arguments fun _ _ _ _ hv => ?_
    cases hv with
    | nil => exact .write _
    | cons hvw _ =>
      refine .bind (paired_display hvw) fun _ _ text _ ht => ?_
      cases ht
      exact .write _
  | consoleWrite =>
    refine .bind (paired_displayArgument 0) fun _ _ text _ ht => ?_
    cases ht
    exact .write text
  | environmentNewLine => exact paired_pushText _

end Native

namespace Exec

variable {ρ : Renaming}

/-- A native method does alike on both sides. -/
theorem paired_runNative (id : MethodId) : Paired ρ (runNative id) (runNative id) Same := by
  refine .bind (R := fun _ p q => p.1 = q.1 ∧ p.2.SameDeclaration q.2)
    (.query fun m m' hm => ?_) fun _ _ p q hpq => ?_
  · have hmethod := hm.catalog.method id
    dsimp only
    rw [hm.catalog.fullName, hmethod.declaringType]
    exact .ok ⟨rfl, hmethod⟩
  · obtain ⟨typeName, method⟩ := p
    obtain ⟨typeName', method'⟩ := q
    obtain ⟨rfl, hmethod⟩ := hpq
    dsimp only at hmethod ⊢
    rw [hmethod.name, hmethod.arity]
    split
    · exact Native.paired_run _
    · exact .fault (.same rfl)

/-! ## Results of calls -/

private theorem paired_pushAll {result result' : Option Value}
    (h : Option.Rel (Value.Alike ρ) result result') :
    Paired ρ (result.forM push) (result'.forM push) Same := by
  cases h with
  | none => exact .done rfl
  | some hv => exact .push hv

/-- Results that are alike are pushed alike. -/
theorem paired_pushResults {result result' created created' : Option Value}
    (hr : Option.Rel (Value.Alike ρ) result result')
    (hc : Option.Rel (Value.Alike ρ) created created') :
    Paired ρ (pushResults result created) (pushResults result' created') Same :=
  .bind (paired_pushAll hr) fun _ hle _ _ _ => paired_pushAll (Value.Alike.option_mono hle hc)

/-! ## Arguments of the entry point -/

/-- The arguments of a program are made alike on both sides. -/
theorem paired_startArguments (id : MethodId) (texts : List String) :
    Paired ρ (Machine.startArguments id texts) (Machine.startArguments id texts) Values.Alike := by
  refine .bind (paired_ask fun m m' hm => (hm.catalog.method id).arity) fun _ _ arity _ harity => ?_
  cases harity
  split
  · exact .done .nil
  · refine .bind (paired_allocStrings (fun text => text) texts) fun _ _ vs ws hv => ?_
    refine .bind (paired_allocArray ⟨rfl, hv⟩) fun _ _ _ _ hr => ?_
    exact .done (.cons hr .nil)

end Exec

end ManagedCode
