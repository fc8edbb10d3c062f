import ManagedCode.Proofs.Execution.Effects
import ManagedCode.Proofs.Heap.Growth
import ManagedCode.Proofs.Library.Calls
import ManagedCode.Proofs.Text.Division

/-!
# Splitting and joining strings

Splitting makes a string of each piece of a text and an array of the strings. Joining reads the
array back. The pieces are those of the text: there is one more than there are separators in it,
none contains a separator, and with the separators between them they are the text again.
-/

namespace ManagedCode

/-! ## Objects -/

/-- The value that stands for a character. -/
def Value.ofChar (c : Char) : Value := .int32 (Int32.ofNat c.toNat)

/-- The elements of an array of characters. -/
def Elements.ofChars (cs : List Char) : Elements := ⟨.char, (cs.map Value.ofChar).toArray⟩

/-- A new string with the text. -/
def Machine.stringObject (m : Machine) (text : String) : Object := ⟨m.core.string, [.text text]⟩

/-- A new array with the elements. -/
def Machine.arrayObject (m : Machine) (elements : Elements) : Object :=
  ⟨m.core.array, [.array elements, .value (.int32 (Int32.ofNat elements.size))]⟩

/-- The handles name strings with the texts, in order. -/
def Machine.HasStrings (m : Machine) (strings : List Handle) (texts : List String) : Prop :=
  List.Forall₂ (fun string text => m.heap.get? string = some (m.stringObject text)) strings texts

/-- The handle names an array of strings with the texts. -/
def Machine.HasTexts (m : Machine) (array : Handle) (texts : List String) : Prop :=
  ∃ strings : List Handle, m.HasStrings strings texts ∧
    m.heap.get? array = some (m.arrayObject ⟨.any, (strings.map .ref).toArray⟩)

namespace Machine

variable {m : Machine} {strings : List Handle} {texts : List String}

/-- Strings keep their texts while the heap grows. -/
theorem HasStrings.grows {heap : Heap} {count : Nat} (h : m.HasStrings strings texts)
    (hg : m.heap.Grows count heap) : Machine.HasStrings { m with heap } strings texts :=
  List.Forall₂.imp (fun string text hs => hg.kept string (m.stringObject text) hs) h

/-- A string is displayed by its text. -/
theorem display_of_get? {string : Handle} {text : String}
    (h : m.heap.get? string = some (m.stringObject text)) :
    m.display (.ref string) = .ok text := by
  refine bind_eq_ok_iff.mpr ⟨_, object_of_get? h, ?_⟩
  show (pure (if m.core.string = m.core.string then text else _) : Except Fault String) = _
  rw [if_pos rfl]
  rfl

end Machine

namespace Exec

variable {m : Machine}

/-- Asking for the text of one value after another gives the texts of the strings. -/
theorem mapM_display {strings : List Handle} {texts : List String}
    (h : m.HasStrings strings texts) :
    ((strings.map Value.ref).mapM fun value => query (·.display value)) m = .ok texts m := by
  induction h with
  | nil => rfl
  | @cons string text strings texts hs _ ih =>
    have hfirst : query (·.display (.ref string)) m = .ok text m := by
      rw [query_apply, Machine.display_of_get? hs]
    rw [List.map_cons, List.mapM_cons, bind_of_ok _ hfirst, bind_of_ok _ ih]
    rfl

/-- With room on the heap, a string is made. -/
theorem allocString_of_room (hr : m.heap.isFull = false) (text : String) :
    allocString text m = .ok (.ref (m.heap.add (m.stringObject text)).1)
      { m with heap := (m.heap.add (m.stringObject text)).2 } :=
  bind_of_ok _ (store_of_room hr (m.stringObject text))

/-- With room on the heap and a length within the limit, an array is made. -/
theorem allocArray_of_room (hr : m.heap.isFull = false) {elements : Elements}
    (hl : elements.size ≤ m.arrayLimit) :
    allocArray elements m = .ok (.ref (m.heap.add (m.arrayObject elements)).1)
      { m with heap := (m.heap.add (m.arrayObject elements)).2 } := by
  have hcheck : m.checkArrayLength elements.size = .ok elements.size := by
    rw [Machine.checkArrayLength, if_neg (by omega), if_pos (by omega), Int.toNat_natCast]
  have hlength : query (·.checkArrayLength elements.size) m = .ok elements.size m := by
    rw [query_apply, hcheck]
  exact (bind_of_ok _ hlength).trans (bind_of_ok _ (store_of_room hr (m.arrayObject elements)))

/-- Where there is room for a string of each text, the strings are made, one after another. -/
theorem exists_mapM_allocString (texts : List String) (hw : m.heap.WellFormed)
    (hr : m.heap.live + texts.length ≤ m.heap.capacity)
    (ha : m.heap.Addressable texts.length) :
    ∃ strings heap, texts.mapM allocString m = .ok (strings.map Value.ref) { m with heap } ∧
      m.heap.Grows texts.length heap ∧ Machine.HasStrings { m with heap } strings texts := by
  induction texts generalizing m with
  | nil => exact ⟨[], m.heap, rfl, hw.grows_zero, .nil⟩
  | cons text texts ih =>
    rw [List.length_cons] at hr ha
    have hroom : m.heap.isFull = false := by
      rw [Heap.isFull, decide_eq_false_iff_not]
      omega
    have hfirst := hw.grows_add hroom (m.stringObject text)
    have hnamed := (hw.gains_add (m.stringObject text)).named (ha.mono (by omega))
    obtain ⟨strings, heap, hrest, hgrows, hstrings⟩ :=
      ih (m := { m with heap := (m.heap.add (m.stringObject text)).2 }) hfirst.wellFormed
        (by rw [hfirst.live, hfirst.capacity]; omega) (ha.add hw _)
    refine ⟨(m.heap.add (m.stringObject text)).1 :: strings, heap, ?_, ?_, ?_⟩
    · rw [List.mapM_cons, bind_of_ok _ (allocString_of_room hroom text), bind_of_ok _ hrest]
      rfl
    · rw [List.length_cons, Nat.add_comm]
      exact hfirst.trans hgrows
    · exact .cons (hgrows.kept _ _ hnamed.2.1) hstrings

end Exec

/-! ## What the behaviours do -/

namespace Native

open Exec

variable {m : Machine}

/-- Characters are read back from their code points. -/
theorem filterMap_ofChar (cs : List Char) :
    ((cs.map Value.ofChar).filterMap fun
      | .int32 v =>
        let n := v.toUInt32.toNat
        if n.isValidChar then some (Char.ofNat n) else none
      | _ => none) = cs := by
  rw [List.filterMap_map]
  refine (List.filterMap_congr fun c _ => ?_).trans List.filterMap_some
  have hcode : (Int32.ofNat c.toNat).toUInt32.toNat = c.toNat :=
    UInt32.toNat_ofNat_of_lt' c.val.toNat_lt
  have hvalid : c.toNat.isValidChar := c.valid
  simp only [Function.comp_apply, Value.ofChar, hcode]
  rw [if_pos hvalid, Char.ofNat_toNat]

section Splitting

variable {text : Value} {s : String} {handle : Handle} {cs : List Char} {rest : List Value}

/-- The characters of an array are read in order. -/
theorem separators_eq_ok (ha : m.arguments = .ok (text :: .ref handle :: rest))
    (hs : m.arrayOf handle = .ok (.ofChars cs)) : separators m = .ok cs m := by
  obtain ⟨object, hobject, hslot⟩ := Machine.slot_of_arrayOf hs
  have hvalues : m.elements (.ref handle) = .ok (cs.map Value.ofChar) := by
    refine bind_eq_ok_iff.mpr ⟨handle, rfl,
      bind_eq_ok_iff.mpr ⟨object, Machine.object_of_get? hobject, ?_⟩⟩
    rw [Object.slot?, hslot]
    rfl
  have harguments : query Machine.arguments m = .ok (text :: .ref handle :: rest) m := by
    rw [query_apply, ha]
  have helements : query (·.elements (.ref handle)) m = .ok (cs.map Value.ofChar) m := by
    rw [query_apply, hvalues]
  refine (bind_of_ok _ harguments).trans ((bind_of_ok _ helements).trans ?_)
  exact congrArg (EStateM.Result.ok · m) (filterMap_ofChar cs)

/-- Where there is room, the pieces become an array of strings. -/
theorem exists_pushTexts (hm : m.calls.frames ≠ []) (hw : m.heap.WellFormed)
    (pieces : List (List Char)) (hr : m.heap.live + (pieces.length + 1) ≤ m.heap.capacity)
    (ha : m.heap.Addressable (pieces.length + 1)) (hl : pieces.length ≤ m.arrayLimit) :
    ∃ array heap,
      pushTexts pieces m = .ok () (Machine.pushed { m with heap } (.ref array)) ∧
      m.heap.Grows (pieces.length + 1) heap ∧
      Machine.HasTexts { m with heap } array (pieces.map String.ofList) := by
  obtain ⟨strings, heap, hstrings, hgrows, hnamed⟩ :=
    exists_mapM_allocString (pieces.map String.ofList) hw (by rw [List.length_map]; omega)
      (ha.mono (by rw [List.length_map]; omega))
  rw [List.mapM_map] at hstrings
  rw [List.length_map] at hgrows
  have hcount : strings.length = pieces.length := by
    rw [hnamed.length_eq, List.length_map]
  let elements : Elements := ⟨.any, (strings.map Value.ref).toArray⟩
  have hroom : heap.isFull = false := by
    rw [Heap.isFull, decide_eq_false_iff_not, hgrows.live, hgrows.capacity]
    omega
  have hlimit : elements.size ≤ m.arrayLimit := by
    simp only [elements, Elements.size, List.size_toArray, List.length_map]
    omega
  have harray := allocArray_of_room (m := { m with heap }) hroom hlimit
  have hadded := hgrows.wellFormed.grows_add hroom (m.arrayObject elements)
  have hhandle := (hgrows.wellFormed.gains_add (m.arrayObject elements)).named
    (hgrows.addressable 1 ha)
  refine ⟨_, _, (bind_of_ok _ hstrings).trans ((bind_of_ok _ harray).trans (push_eq_ok hm)),
    hgrows.trans hadded, strings, hnamed.grows hadded, hhandle.2.1⟩

/-- Splitting at given characters makes strings of the pieces. -/
theorem run_stringSplit (ha : m.arguments = .ok (text :: .ref handle :: rest))
    (ht : m.textOf text = .ok s) (hs : m.arrayOf handle = .ok (.ofChars cs)) (hne : cs ≠ []) :
    stringSplit.run m = pushTexts (Text.splitAll cs.contains s.toList) m := by
  have htext : textArgument 0 m = .ok s m := textArgument_eq_ok ha rfl ht
  have hpieces : splitText cs s.toList = Text.splitAll cs.contains s.toList := by
    rw [splitText, if_neg (by simpa using hne)]
  refine (bind_of_ok _ htext).trans ((bind_of_ok _ (separators_eq_ok ha hs)).trans ?_)
  rw [hpieces]

/-- Joining makes a string of the texts with the separator between them. -/
theorem run_stringJoin {separator : Value} {array : Handle} {texts : List String}
    (ha : m.arguments = .ok (separator :: .ref array :: rest))
    (ht : m.textOf separator = .ok s) (hs : m.HasTexts array texts)
    (hr : m.heap.isFull = false) :
    let joined := m.stringObject (s.intercalate texts)
    stringJoin.run m = .ok () (Machine.pushed { m with heap := (m.heap.add joined).2 }
      (.ref (m.heap.add joined).1)) := by
  intro joined
  obtain ⟨strings, hstrings, harray⟩ := hs
  have helements : m.elements (.ref array) = .ok (strings.map Value.ref) :=
    bind_eq_ok_iff.mpr ⟨array, rfl,
      bind_eq_ok_iff.mpr ⟨_, Machine.object_of_get? harray, rfl⟩⟩
  have htext : textArgument 0 m = .ok s m := textArgument_eq_ok ha rfl ht
  have hparts : argument 1 m = .ok (.ref array) m := argument_eq_ok ha rfl
  have hvalues : query (·.elements (.ref array)) m = .ok (strings.map Value.ref) m := by
    rw [query_apply, helements]
  refine (bind_of_ok _ htext).trans ((bind_of_ok _ hparts).trans ((bind_of_ok _ hvalues).trans ?_))
  refine (bind_of_ok _ (mapM_display hstrings)).trans ?_
  exact (bind_of_ok _ (allocString_of_room hr _)).trans (push_eq_ok (frames_of_arguments ha))

end Splitting

end Native

/-! ## Calls -/

namespace Library

/-- The built-in type of strings. -/
def stringEntry : TypeEntry where
  nameSpace := "System"
  name := "String"
  fields := [("Value", string)]
  members := stringMembers

/-- Strings are among the built-in types. -/
theorem stringEntry_mem : stringEntry ∈ types := List.mem_of_getElem? (i := 7) rfl

/-- The method that splits a string at the characters of an array. -/
def splitMethod : MethodRef := ⟨string, "Split", ⟨false, [arrayOf char], arrayOf string⟩⟩

/-- The method that joins the strings of an array. -/
def joinMethod : MethodRef := ⟨string, "Join", ⟨true, [string, arrayOf string], string⟩⟩

end Library

open Library (joinMethod splitMethod)

namespace Machine

/-- Every call that joins the strings of the array gives a new string with the text, and changes
nothing else. -/
def Joins (m : Machine) (separator : Value) (array : Handle) (text : String) : Prop :=
  ∃ joined heap,
    m.Returns joinMethod [separator, .ref array] (some (.ref joined)) heap ∧
    m.heap.Gains joined (m.stringObject text) heap ∧
    Machine.textOf { m with heap } (.ref joined) = .ok text

/-- One character that is given several times is one separator. -/
theorem contains_eq_beq {cs : List Char} (hne : cs ≠ []) {c : Char} (h : ∀ d ∈ cs, d = c) :
    cs.contains = (· == c) := by
  obtain ⟨e, he⟩ := List.exists_mem_of_ne_nil cs hne
  have hmem : c ∈ cs := h e he ▸ he
  funext d
  rw [Bool.eq_iff_iff, List.contains_iff_mem, beq_iff_eq]
  exact ⟨h d, fun hd => hd ▸ hmem⟩

/-- The pieces of a text, joined with the separator, are the text. -/
theorem intercalate_pieces (c : Char) (s : String) : (String.singleton c).intercalate
    ((Text.splitAll (· == c) s.toList).map String.ofList) = s := by
  have hpieces (pieces : List (List Char)) :
      (pieces.map String.ofList).map String.toList = pieces := by
    simp [Function.comp_def]
  rw [← String.toList_inj, String.toList_intercalate, hpieces, String.toList_singleton]
  exact Text.intercalate_splitAll c s.toList

section Calling

variable {m : Machine} {text : Value} {s : String} {cs : List Char}

/-- Joining gives the texts with the separator between them. -/
theorem Equipped.joins (hm : m.Equipped) (hroom : m.calls.depth < m.calls.maxDepth)
    (hr : m.heap.isFull = false) (hlarge : m.heap.Addressable 1) {separator : Value}
    {array : Handle} {texts : List String} (hs : m.textOf separator = .ok s)
    (ha : m.HasTexts array texts) : m.Joins separator array (s.intercalate texts) := by
  have hmember : Library.staticMember "Join" [Library.string, Library.arrayOf Library.string]
      Library.string .stringJoin ∈ Library.stringEntry.members :=
    List.mem_of_getElem? (i := 3) rfl
  have hgains := hm.heap.gains_add (m.stringObject (s.intercalate texts))
  refine ⟨_, _, ?_, hgains, ?_⟩
  · exact hm.returns hroom Library.stringEntry_mem hmember rfl fun id =>
      Native.run_stringJoin (m := m.withFrame id _) rfl hs ha hr
  · exact bind_eq_ok_iff.mpr ⟨_, object_of_get? (hgains.named hlarge).2.1, rfl⟩

/-- Splitting and joining are inverse. Wherever a frame can be entered and there is room for the
pieces, splitting a text at some characters gives an array of strings of its own: the pieces of the
text between these characters, in order. If only one character is given, then joining the array with
it gives the text again, on the machine after the call and on every other one that has the array. -/
theorem split_join_inverse (hm : m.Equipped) (hroom : m.calls.depth < m.calls.maxDepth)
    (ht : m.textOf text = .ok s) {separators : Handle}
    (hs : m.arrayOf separators = .ok (.ofChars cs)) (hne : cs ≠ [])
    (hheap : m.heap.live + (s.toList.countP cs.contains + 2) ≤ m.heap.capacity)
    (hlarge : m.heap.Addressable (s.toList.countP cs.contains + 2))
    (hlimit : s.toList.countP cs.contains + 1 ≤ m.arrayLimit) :
    ∃ array heap pieces,
      m.Returns splitMethod [text, .ref separators] (some (.ref array)) heap ∧
      m.heap.Grows (s.toList.countP cs.contains + 2) heap ∧
      (∀ id arguments, (m.returned id arguments heap).Equipped ∧
        (m.returned id arguments heap).HasTexts array (pieces.map String.ofList)) ∧
      Text.Divides pieces cs s.toList ∧
      ∀ c, (∀ d ∈ cs, d = c) → ∀ m' : Machine, m'.Equipped →
        m'.calls.depth < m'.calls.maxDepth → m'.heap.isFull = false → m'.heap.Addressable 1 →
        m'.HasTexts array (pieces.map String.ofList) → ∀ separator,
        m'.textOf separator = .ok (String.singleton c) → m'.Joins separator array s := by
  have hmember : Library.instanceMember "Split" [Library.arrayOf Library.char]
      (Library.arrayOf Library.string) .stringSplit ∈ Library.stringEntry.members :=
    List.mem_of_getElem? (i := 4) rfl
  obtain ⟨id, himplants⟩ := Library.exists_implants hm.catalog Library.stringEntry_mem hmember
  have hdivides := Text.divides_splitAll cs s.toList
  obtain ⟨array, heap, hrun, hgrows, htexts⟩ :=
    Native.exists_pushTexts (m := m.withFrame id [text, .ref separators])
      (List.cons_ne_nil _ _) hm.heap (Text.splitAll cs.contains s.toList)
      (hdivides.length ▸ hheap) (hdivides.length ▸ hlarge) (hdivides.length ▸ hlimit)
  rw [hdivides.length] at hgrows
  have hsplit := Native.run_stringSplit (m := m.withFrame id [text, .ref separators]) rfl ht hs hne
  refine ⟨array, heap, Text.splitAll cs.contains s.toList, ?_, hgrows, ?_, hdivides, ?_⟩
  · refine returns_of_implants hroom himplants ?_ (hsplit.trans hrun)
    rfl
  · exact fun id arguments => ⟨⟨hm.catalog, hm.core, hgrows.wellFormed⟩, htexts⟩
  · intro c honly m' hm' hroom' hr' hlarge' htexts' separator hseparator
    have hjoined : (String.singleton c).intercalate
        ((Text.splitAll cs.contains s.toList).map String.ofList) = s := by
      rw [contains_eq_beq hne honly]
      exact intercalate_pieces c s
    exact hjoined ▸ hm'.joins hroom' hr' hlarge' hseparator htexts'

end Calling

/-- A machine with a text, an array with one separator, and the separator as a string. -/
def separated : Machine :=
  let text := Action.advance 0 (Machine.new {} .empty) (.allocString "a,,b")
  Action.advance 0 (Action.advance 0 text (.allocArray (.ofChars [',']))) (.allocString ",")

/-- A text with adjacent separators is split into three strings, of which one is empty, and joined
again on the machine after the call. -/
theorem split_join_inverse_adjacent :
    ∃ array heap pieces,
      separated.Returns splitMethod [.ref ⟨0, 0⟩, .ref ⟨1, 0⟩] (some (.ref array)) heap ∧
      pieces.length = 3 ∧ Text.interleave pieces [',', ','] = ['a', ',', ',', 'b'] ∧
      ∀ id arguments, (separated.returned id arguments heap).Joins (.ref ⟨2, 0⟩) array "a,,b" := by
  have hattained : Attainable {} .empty separated :=
    .act (.allocString ",") 0 (.act (.allocArray (.ofChars [','])) 0
      (.act (.allocString "a,,b") 0 .new rfl) rfl) rfl
  have hlarge : separated.heap.Addressable 5 := ⟨by decide +kernel, by decide +kernel⟩
  have hseparator : separated.heap.get? ⟨2, 0⟩ = some (separated.stringObject ",") := by
    decide +kernel
  have hroom : separated.calls.depth < separated.calls.maxDepth := by decide +kernel
  have htext : separated.textOf (.ref ⟨0, 0⟩) = .ok "a,,b" := by decide +kernel
  have hcharacters : separated.arrayOf ⟨1, 0⟩ = .ok (.ofChars [',']) := by decide +kernel
  obtain ⟨array, heap, pieces, hreturns, hgrows, hafter, hdivides, hjoins⟩ :=
    split_join_inverse hattained.equipped hroom htext hcharacters (List.cons_ne_nil _ _)
      (by decide +kernel) (hlarge.mono (by decide +kernel)) (by decide +kernel)
  refine ⟨array, heap, pieces, hreturns, hdivides.length, hdivides.interleave,
    fun id arguments => ?_⟩
  have honly : ∀ c ∈ [','], c = ',' := fun c => List.eq_of_mem_singleton
  refine hjoins ',' honly _ (hafter id arguments).1 hroom ?_ (hgrows.addressable 1 hlarge)
    (hafter id arguments).2 _ ?_
  · show heap.isFull = false
    rw [Heap.isFull, hgrows.live, hgrows.capacity]
    decide +kernel
  · exact bind_eq_ok_iff.mpr ⟨_, object_of_get? (hgrows.kept _ _ hseparator), rfl⟩

end Machine

end ManagedCode
