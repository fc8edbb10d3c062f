import ManagedCode.Library.Types
import ManagedCode.Proofs.Execution.Instructions

/-!
# Native behaviours are composed

Every native behaviour is composed of the primitives: what it stores in a list or pushes is one of
its arguments, an element of one, or an object that it made.
-/

namespace ManagedCode

namespace Exec

variable {held : List Value}

/-- Something composed done for each item of a list. -/
theorem composed_mapM {α β : Type} {f : α → Exec β} {given : β → List Value} {items : List α}
    (h : ∀ a ∈ items, Composed held (f a) given) :
    Composed held (items.mapM f) fun results => results.flatMap given := by
  induction items with
  | nil =>
    rw [List.mapM_nil]
    exact .done _ (.of_subset (by simp))
  | cons a items ih =>
    rw [List.mapM_cons]
    refine .bind (h a List.mem_cons_self) fun b => ?_
    have hrest := ih fun a ha => h a (List.mem_cons_of_mem _ ha)
    refine .bind (hrest.mono (.of_subset (List.subset_append_right _ _))) fun results => ?_
    exact .done _ (.of_subset (by simp))

/-- The fault of a native behaviour names no object. -/
theorem composed_fail {α : Type} (message : String) :
    Composed held (fail message : Exec α) noValues :=
  .query fun _ _ _ => by simp [Machine.GoodAnswer, Fault.IsMissing]

/-- A file gives a text, which refers to nothing. -/
theorem composed_readFile (path : String) : Composed held (readFile path) noValues :=
  .query fun _ _ _ => Machine.goodAnswer_mapError (fun e => by simp [Fault.IsMissing]) _

end Exec

namespace Native

open Exec Machine

variable {held : List Value}

/-! ## Arguments -/

/-- The arguments come from the frame. -/
theorem composed_arguments : Composed held (query Machine.arguments) fun arguments => arguments :=
  .query fun _ hn _ => hn.goodAnswer_arguments

/-- Each argument comes from the frame. -/
theorem composed_argument (index : Nat) : Composed held (argument index) fun v => [v] :=
  .query fun _ hn _ => hn.goodAnswer_argument index

/-- A value that is held may be shown. -/
theorem composed_display {v : Value} (h : v ∈ held) :
    Composed held (query (·.display v)) noValues :=
  .query fun _ hn hm => hn.goodAnswer_display (hm.backed (.of_subset (by simpa using h)))

/-- The text of a value that is held may be read. -/
theorem composed_textOf {v : Value} (h : v ∈ held) : Composed held (query (·.textOf v)) noValues :=
  .query fun _ hn hm => hn.goodAnswer_textOf (hm.backed (.of_subset (by simpa using h)))

/-- The elements of a value that is held are held. -/
theorem composed_elements {v : Value} (h : v ∈ held) :
    Composed held (query (·.elements v)) fun elements => elements :=
  .query fun _ hn hm => hn.goodAnswer_elements (hm.backed (.of_subset (by simpa using h)))

/-- The text of an argument may be read. -/
theorem composed_textArgument (index : Nat) : Composed held (textArgument index) noValues :=
  .bind (composed_argument index) fun _ => composed_textOf (by simp)

/-- An argument may be shown. -/
theorem composed_displayArgument (index : Nat) : Composed held (displayArgument index) noValues :=
  .bind (composed_argument index) fun _ => composed_display (by simp)

/-- Each of some values on the console. -/
theorem composed_displayAll {values : List Value} (h : values ⊆ held) :
    Composed held (values.mapM fun value => query (·.display value)) noValues := by
  refine .weaken (composed_mapM fun v hv => composed_display (h hv)) fun _ => ?_
  exact .of_subset (by simp [noValues])

/-- The receiver is an argument. -/
theorem composed_receiver : Composed held receiver fun handle => [.ref handle] :=
  .bind (composed_argument 0) fun v => .query fun _ _ hm =>
    (goodAnswer_toHandle v).mpr (hm.backed (.of_subset (by simp)))

/-- The items of a list that is the receiver come with the receiver. -/
theorem composed_receiverItems :
    Composed held receiverItems fun found => found.2.toList := by
  refine .bind composed_receiver fun handle => ?_
  refine .bind (.query fun m hn hm => hn.goodAnswer_listOf (hm handle (by simp))) fun items => ?_
  exact .done _ (.of_subset (List.subset_append_left _ _))

/-- A text is made a string, which may be pushed. -/
theorem composed_pushText (text : String) : Composed held (pushText text) noValues :=
  composed_push_of (composed_allocString text)

/-- Texts are made strings, which may be put in an array and pushed. -/
theorem composed_pushTexts (texts : List (List Char)) :
    Composed held (pushTexts texts) noValues := by
  refine .bind (composed_mapM fun text _ => composed_allocString _) fun strings => ?_
  refine composed_push_of (composed_allocArray (.of_subset fun v hv => ?_))
  simpa using Or.inl hv

/-- What is no reference may be pushed. -/
theorem composed_pushNumber {v : Value} (h : v.handle? = none) : Composed held (push v) noValues :=
  .push (.of_number h)

/-- Giving something that is no value of the machine needs no primitive. -/
theorem composed_nothing {α : Type} (a : α) : Composed held (pure a) noValues :=
  .done a (.of_subset (by simp [noValues]))

/-! ## Strings and numbers -/

/-- The characters to split at are read from the arguments. -/
theorem composed_separators : Composed held separators noValues := by
  refine .bind composed_arguments fun arguments => ?_
  dsimp only
  split
  · exact .bind (composed_elements (by simp)) fun _ => composed_nothing _
  · exact composed_nothing _

/-- Texts of values that are held may be compared. -/
theorem composed_equalTexts {a b : Value} (ha : a ∈ held) (hb : b ∈ held) :
    Composed held (equalTexts a b) noValues := by
  unfold equalTexts
  split
  · exact composed_nothing _
  · exact composed_nothing _
  · exact composed_nothing _
  · refine .bind (composed_textOf ha) fun _ => ?_
    exact .bind (composed_textOf (List.mem_append_right _ hb)) fun _ => composed_nothing _

/-- The number of a numeral may be pushed. -/
theorem composed_parseInt32 (text : String) : Composed held (parseInt32 text) noValues := by
  unfold parseInt32
  split
  · exact composed_pushNumber rfl
  · exact composed_fail _

/-! ## Lists -/

/-- A position is computed from an index. -/
theorem composed_positionOf (v : Value) (length : Nat) (inclusive : Bool) :
    Composed held (positionOf v length inclusive) noValues :=
  .query fun _ _ _ => (goodAnswer_toIndex v).bind fun _ _ => goodAnswer_position_list ..

/-- A range is computed from the arguments. -/
theorem composed_rangeArguments : Composed held rangeArguments noValues := by
  refine .bind (composed_argument 1) fun index => .bind (composed_argument 2) fun count => ?_
  refine .bind composed_receiverItems fun ⟨_, items⟩ => ?_
  refine .bind (composed_positionOf index items.size true) fun start => ?_
  refine .bind (.query fun _ _ _ => goodAnswer_toIndex count) fun count => ?_
  refine .bind (.query fun _ _ _ => goodAnswer_position_list ..) fun stop => ?_
  split
  · exact .query fun _ _ _ => by simp [GoodAnswer, Fault.IsMissing]
  · exact composed_nothing _

/-- An argument may be searched for among the items of the receiver. -/
theorem composed_findArgument : Composed held findArgument noValues := by
  refine .bind (composed_argument 1) fun wanted => .bind (composed_argument 0) fun container => ?_
  refine .bind (composed_elements (by simp)) fun values => .query fun m hn hm => ?_
  have hvalues : m.Holds values := hm.backed (.of_subset (List.subset_append_left _ _))
  have hwanted : m.Holds [wanted] := hm.backed (.of_subset (by simp))
  exact hn.goodAnswer_findValue hwanted hvalues 0

/-- A capacity is checked by asking the machine. -/
theorem composed_checkCapacity : Composed held checkCapacity noValues := by
  refine .bind composed_receiver fun handle => .bind composed_arguments fun arguments => ?_
  split
  · rename_i capacity _
    refine .bind (.query fun _ _ _ => goodAnswer_toIndex capacity) fun capacity => ?_
    have hrest : ∀ held' : List Value, Value.ref handle ∈ held' → Composed held' (do
        let _ ← query (·.checkArrayLength capacity.toInt)
        let _ ← query (·.listOf handle)) noValues := by
      intro held' hh
      refine .bind (.query fun _ _ _ => goodAnswer_checkArrayLength _) fun _ => ?_
      refine .bind (.query fun m hn hm => hn.goodAnswer_listOf (hm handle (by simp [hh]))) ?_
      exact fun _ => composed_nothing _
    dsimp only
    split
    · exact .bind (composed_fail _) fun _ => hrest _ (by simp)
    · exact hrest _ (by simp)
  · exact composed_nothing _

private theorem backed_getD (items : Array Value) (position : Nat) :
    Backed items.toList [items.getD position .null] := by
  rw [Array.getD_eq_getD_getElem?]
  cases hp : items[position]? with
  | none => exact .of_number rfl
  | some v => exact .of_subset (by simpa using Array.mem_of_getElem? hp)

private theorem subset_extract (items : Array Value) (start stop : Nat) :
    (items.extract start stop).toList ⊆ items.toList := by
  rw [Array.toList_extract]
  exact fun v hv => List.mem_of_mem_drop (List.mem_of_mem_take hv)

private theorem subset_setIfInBounds (items : Array Value) (position : Nat) (v : Value) :
    (items.setIfInBounds position v).toList ⊆ v :: items.toList := by
  intro w hw
  rw [Array.toList_setIfInBounds] at hw
  rcases List.mem_or_eq_of_mem_set hw with hw | rfl
  · exact List.mem_cons_of_mem _ hw
  · exact List.mem_cons_self

private theorem subset_insertIdxIfInBounds (items : Array Value) (position : Nat) (v : Value) :
    (items.insertIdxIfInBounds position v).toList ⊆ v :: items.toList := by
  intro w hw
  unfold Array.insertIdxIfInBounds at hw
  split at hw
  · rwa [Array.mem_toList_iff, Array.mem_insertIdx, ← Array.mem_toList_iff, ← List.mem_cons] at hw
  · exact List.mem_cons_of_mem _ hw

/-- Every native behaviour is composed. -/
theorem composed_run (native : Native) : Composed held native.run noValues := by
  cases native with
  | objectConstruct => exact composed_nothing _
  | objectToString => exact .bind (composed_displayArgument 0) fun _ => composed_pushText _
  | objectEquals =>
    refine .bind (composed_argument 0) fun a => .bind (composed_argument 1) fun b => ?_
    have hequal : Composed ([b] ++ ([a] ++ held)) (query (·.valuesEqual a b)) noValues :=
      .query fun m hn hm => hn.goodAnswer_valuesEqual (hm.backed (.of_subset (by simp)))
        (hm.backed (.of_subset (by simp)))
    exact .bind hequal fun _ => composed_pushNumber rfl
  | stringConcat =>
    refine .bind composed_arguments fun values => ?_
    exact .bind (composed_displayAll (by simp)) fun _ => composed_pushText _
  | stringFormat =>
    refine .bind (composed_textArgument 0) fun _ => .bind (composed_displayArgument 1) fun _ => ?_
    exact composed_pushText _
  | stringJoin =>
    refine .bind (composed_textArgument 0) fun _ => .bind (composed_argument 1) fun parts => ?_
    refine .bind (composed_elements (by simp)) fun values => ?_
    exact .bind (composed_displayAll (by simp)) fun _ => composed_pushText _
  | stringSplit =>
    refine .bind (composed_textArgument 0) fun _ => .bind composed_separators fun _ => ?_
    exact composed_pushTexts _
  | stringLength => exact .bind (composed_textArgument 0) fun _ => composed_pushNumber rfl
  | stringEquality =>
    refine .bind (composed_argument 0) fun a => .bind (composed_argument 1) fun b => ?_
    exact .bind (composed_equalTexts (by simp) (by simp)) fun _ => composed_pushNumber rfl
  | int32Parse => exact .bind (composed_textArgument 0) fun _ => composed_parseInt32 _
  | listConstruct => exact composed_checkCapacity
  | listAdd =>
    refine .bind (composed_argument 1) fun item => ?_
    refine .bind composed_receiverItems fun ⟨handle, items⟩ => ?_
    exact composed_setItems handle (.of_subset (by simp))
  | listAddRange =>
    refine .bind (composed_argument 1) fun range => ?_
    refine .bind (composed_elements (by simp)) fun added => ?_
    refine .bind composed_receiverItems fun ⟨handle, items⟩ => ?_
    exact composed_setItems handle (.of_subset (by simp))
  | listCount => exact .bind composed_receiverItems fun _ => composed_pushNumber rfl
  | listGetItem =>
    refine .bind (composed_argument 1) fun index => ?_
    refine .bind composed_receiverItems fun ⟨_, items⟩ => ?_
    refine .bind (composed_positionOf index _ false) fun position => .push ?_
    have hitems : items.toList ⊆ noValues position ++ (items.toList ++ ([index] ++ held)) := by simp
    exact (Backed.of_subset hitems).trans (backed_getD items position)
  | listSetItem =>
    refine .bind (composed_argument 1) fun index => .bind (composed_argument 2) fun item => ?_
    refine .bind composed_receiverItems fun ⟨handle, items⟩ => ?_
    refine .bind (composed_positionOf index _ false) fun position => composed_setItems handle ?_
    refine .of_subset (List.Subset.trans (subset_setIfInBounds items position item) ?_)
    simp
  | listGetRange =>
    refine .bind composed_rangeArguments fun ⟨start, stop⟩ => ?_
    refine .bind composed_receiverItems fun ⟨_, items⟩ => composed_push_of (composed_allocList ?_)
    exact .of_subset (List.subset_append_of_subset_left _ (subset_extract items start stop))
  | listIndexOf =>
    refine .bind composed_findArgument fun found => ?_
    cases found <;> exact composed_pushNumber rfl
  | listContains => exact .bind composed_findArgument fun _ => composed_pushNumber rfl
  | listInsert =>
    refine .bind (composed_argument 1) fun index => .bind (composed_argument 2) fun item => ?_
    refine .bind composed_receiverItems fun ⟨handle, items⟩ => ?_
    refine .bind (composed_positionOf index _ true) fun position => composed_setItems handle ?_
    refine .of_subset (List.Subset.trans (subset_insertIdxIfInBounds items position item) ?_)
    simp
  | listRemoveAt =>
    refine .bind (composed_argument 1) fun index => ?_
    refine .bind composed_receiverItems fun ⟨handle, items⟩ => ?_
    refine .bind (composed_positionOf index _ false) fun position => composed_setItems handle ?_
    refine .of_subset fun v hv => ?_
    rw [Array.toList_eraseIdxIfInBounds] at hv
    simp [List.mem_of_mem_eraseIdx hv]
  | listRemoveRange =>
    refine .bind composed_rangeArguments fun ⟨start, stop⟩ => ?_
    refine .bind composed_receiverItems fun ⟨handle, items⟩ => composed_setItems handle ?_
    refine .of_subset (List.subset_append_of_subset_left _ ?_)
    rw [Array.toList_append]
    exact List.append_subset.mpr ⟨subset_extract .., subset_extract ..⟩
  | listClear =>
    refine .bind composed_receiverItems fun ⟨handle, _⟩ => ?_
    exact composed_setItems handle (.of_subset (by simp))
  | fileReadAllLines =>
    refine .bind (composed_textArgument 0) fun path => .bind (composed_readFile path) fun _ => ?_
    exact composed_pushTexts _
  | fileWriteAllText =>
    refine .bind (composed_textArgument 0) fun _ => .bind (composed_textArgument 1) fun _ => ?_
    exact .writeFile _ _
  | consoleWriteLine =>
    refine .bind composed_arguments fun arguments => ?_
    cases arguments with
    | nil => exact .write _
    | cons v rest => exact .bind (composed_display (by simp)) fun _ => .write _
  | consoleWrite => exact .bind (composed_displayArgument 0) fun _ => .write _
  | environmentNewLine => exact composed_pushText _

end Native

end ManagedCode
