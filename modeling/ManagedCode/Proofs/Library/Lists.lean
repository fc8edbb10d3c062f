import ManagedCode.Proofs.Heap.Growth
import ManagedCode.Proofs.Library.Calls
import ManagedCode.Proofs.Library.Ranges

/-!
# The methods of lists

A list is a sequence, and its methods are the operations of sequences. Those that take a position
succeed exactly for the positions of the sequence, those that take a range for its ranges, and a
call that fails changes nothing. No method looks at the type of the list or keeps anything of its
arguments but the items.
-/

namespace ManagedCode

/-! ## What the behaviours do -/

namespace Native

open Exec

section Running

variable {m : Machine} {this first second : Value} {rest : List Value} {handle : Handle}
  {items : List Value} {index : Int64}

section Whole

variable (ha : m.arguments = .ok (this :: rest)) (hl : listAt m this = .ok (handle, items.toArray))

include ha hl

/-- What is done with the receiver and its items is done with these. -/
theorem receiverItems_bind {α : Type} (f : Handle × Array Value → Exec α) :
    (receiverItems >>= f) m = f (handle, items.toArray) m :=
  bind_of_ok _ (receiverItems_eq_ok ha hl)

/-- Clearing leaves no items. -/
theorem run_listClear :
    listClear.run m = .ok () { m with heap := m.heap.withItems handle [] } :=
  receiverItems_bind ha hl _

/-- The count is the number of items as a 32-bit integer. -/
theorem run_listCount :
    listCount.run m = .ok () (m.pushed (.int32 (Int32.ofNat items.length))) :=
  (receiverItems_bind ha hl _).trans (push_eq_ok (frames_of_arguments ha))

end Whole

section Item

variable (ha : m.arguments = .ok (this :: first :: rest))
  (hl : listAt m this = .ok (handle, items.toArray))

include ha hl

/-- Adding puts the item behind all others. -/
theorem run_listAdd :
    listAdd.run m = .ok () { m with heap := m.heap.withItems handle (items ++ [first]) } := by
  have hitem : argument 1 m = .ok first m := argument_eq_ok ha rfl
  refine (bind_of_ok _ hitem).trans ((receiverItems_bind ha hl _).trans ?_)
  dsimp only
  rw [List.push_toArray]
  rfl

/-- The items to add are read before the list changes, so it may be added to itself. -/
theorem run_listAddRange {more : List Value} (hs : m.elements first = .ok more) :
    listAddRange.run m = .ok () { m with heap := m.heap.withItems handle (items ++ more) } := by
  have hsource : argument 1 m = .ok first m := argument_eq_ok ha rfl
  have hmore : query (·.elements first) m = .ok more m := by rw [query_apply, hs]
  refine (bind_of_ok _ hsource).trans ((bind_of_ok _ hmore).trans ?_)
  refine (receiverItems_bind ha hl _).trans ?_
  dsimp only
  rw [List.append_toArray]
  rfl

omit hl in
/-- Nothing is added of what has no elements. -/
theorem run_listAddRange_eq_error {fault : Fault} (hs : m.elements first = .error fault) :
    listAddRange.run m = .error fault m := by
  have hsource : argument 1 m = .ok first m := argument_eq_ok ha rfl
  have hmore : query (·.elements first) m = .error fault m := by rw [query_apply, hs]
  exact (bind_of_ok _ hsource).trans (bind_of_error _ hmore)

end Item

section Position

variable (ha : m.arguments = .ok (this :: first :: rest))
  (hl : listAt m this = .ok (handle, items.toArray)) (hi : first.toIndex = .ok index)

include ha hl hi

/-- The item of an index in range is pushed. -/
theorem run_listGetItem {item : Value} (h : 0 ≤ index.toInt)
    (hitem : items[index.toInt.toNat]? = some item) :
    listGetItem.run m = .ok () (m.pushed item) := by
  obtain ⟨hlt, -⟩ := List.getElem?_eq_some_iff.mp hitem
  have hindex : argument 1 m = .ok first m := argument_eq_ok ha rfl
  have hposition : positionOf first items.length false m = .ok index.toInt.toNat m :=
    positionOf_item hi ⟨h, by omega⟩ m
  have hfound : items.toArray.getD index.toInt.toNat .null = item := by
    rw [Array.getD_eq_getD_getElem?, List.getElem?_toArray, hitem, Option.getD_some]
  refine (bind_of_ok _ hindex).trans ((receiverItems_bind ha hl _).trans ?_)
  refine (bind_of_ok _ hposition).trans ?_
  rw [hfound]
  exact push_eq_ok (frames_of_arguments ha)

/-- An index out of range has no item. -/
theorem run_listGetItem_eq_error (h : ¬ (0 ≤ index.toInt ∧ index.toInt < items.length)) :
    listGetItem.run m = .error (.indexOutOfRange .list index.toInt items.length) m := by
  have hindex : argument 1 m = .ok first m := argument_eq_ok ha rfl
  have hposition : positionOf first items.length false m =
      .error (.indexOutOfRange .list index.toInt items.length) m :=
    positionOf_item_eq_error hi h m
  refine (bind_of_ok _ hindex).trans ((receiverItems_bind ha hl _).trans ?_)
  exact bind_of_error _ hposition

/-- Removing takes out the item of the index, and those behind it move up. -/
theorem run_listRemoveAt (h : 0 ≤ index.toInt ∧ index.toInt < items.length) :
    listRemoveAt.run m = .ok () { m with
      heap := m.heap.withItems handle (items.eraseIdx index.toInt.toNat) } := by
  have hindex : argument 1 m = .ok first m := argument_eq_ok ha rfl
  have hposition : positionOf first items.length false m = .ok index.toInt.toNat m :=
    positionOf_item hi h m
  refine (bind_of_ok _ hindex).trans ((receiverItems_bind ha hl _).trans ?_)
  refine (bind_of_ok _ hposition).trans ?_
  rw [List.eraseIdxIfInBounds_toArray]
  rfl

/-- Nothing is removed at an index out of range. -/
theorem run_listRemoveAt_eq_error (h : ¬ (0 ≤ index.toInt ∧ index.toInt < items.length)) :
    listRemoveAt.run m = .error (.indexOutOfRange .list index.toInt items.length) m := by
  have hindex : argument 1 m = .ok first m := argument_eq_ok ha rfl
  have hposition : positionOf first items.length false m =
      .error (.indexOutOfRange .list index.toInt items.length) m :=
    positionOf_item_eq_error hi h m
  refine (bind_of_ok _ hindex).trans ((receiverItems_bind ha hl _).trans ?_)
  exact bind_of_error _ hposition

end Position

section ItemAt

variable (ha : m.arguments = .ok (this :: first :: second :: rest))
  (hl : listAt m this = .ok (handle, items.toArray)) (hi : first.toIndex = .ok index)

include ha hl hi

/-- The item of an index in range is replaced. -/
theorem run_listSetItem (h : 0 ≤ index.toInt ∧ index.toInt < items.length) :
    listSetItem.run m = .ok () { m with
      heap := m.heap.withItems handle (items.set index.toInt.toNat second) } := by
  have hindex : argument 1 m = .ok first m := argument_eq_ok ha rfl
  have hitem : argument 2 m = .ok second m := argument_eq_ok ha rfl
  have hposition : positionOf first items.length false m = .ok index.toInt.toNat m :=
    positionOf_item hi h m
  refine (bind_of_ok _ hindex).trans ((bind_of_ok _ hitem).trans ?_)
  refine (receiverItems_bind ha hl _).trans ((bind_of_ok _ hposition).trans ?_)
  rw [List.setIfInBounds_toArray]
  rfl

/-- Nothing is replaced at an index out of range. -/
theorem run_listSetItem_eq_error (h : ¬ (0 ≤ index.toInt ∧ index.toInt < items.length)) :
    listSetItem.run m = .error (.indexOutOfRange .list index.toInt items.length) m := by
  have hindex : argument 1 m = .ok first m := argument_eq_ok ha rfl
  have hitem : argument 2 m = .ok second m := argument_eq_ok ha rfl
  have hposition : positionOf first items.length false m =
      .error (.indexOutOfRange .list index.toInt items.length) m :=
    positionOf_item_eq_error hi h m
  refine (bind_of_ok _ hindex).trans ((bind_of_ok _ hitem).trans ?_)
  exact (receiverItems_bind ha hl _).trans (bind_of_error _ hposition)

/-- Inserting makes room at an index, which may be the one behind the last item. -/
theorem run_listInsert (h : 0 ≤ index.toInt ∧ index.toInt ≤ items.length) :
    listInsert.run m = .ok () { m with
      heap := m.heap.withItems handle (items.insertIdx index.toInt.toNat second) } := by
  have hindex : argument 1 m = .ok first m := argument_eq_ok ha rfl
  have hitem : argument 2 m = .ok second m := argument_eq_ok ha rfl
  have hposition : positionOf first items.length true m = .ok index.toInt.toNat m :=
    positionOf_gap hi h m
  refine (bind_of_ok _ hindex).trans ((bind_of_ok _ hitem).trans ?_)
  refine (receiverItems_bind ha hl _).trans ((bind_of_ok _ hposition).trans ?_)
  rw [List.insertIdxIfInBounds_toArray]
  rfl

/-- Nothing is inserted further behind. -/
theorem run_listInsert_eq_error (h : ¬ (0 ≤ index.toInt ∧ index.toInt ≤ items.length)) :
    listInsert.run m = .error (.indexOutOfRange .list index.toInt items.length) m := by
  have hindex : argument 1 m = .ok first m := argument_eq_ok ha rfl
  have hitem : argument 2 m = .ok second m := argument_eq_ok ha rfl
  have hposition : positionOf first items.length true m =
      .error (.indexOutOfRange .list index.toInt items.length) m :=
    positionOf_gap_eq_error hi h m
  refine (bind_of_ok _ hindex).trans ((bind_of_ok _ hitem).trans ?_)
  exact (receiverItems_bind ha hl _).trans (bind_of_error _ hposition)

end ItemAt

end Running

end Native

/-! ## Searching -/

/-- What comes of comparing values with a wanted one in order: the first that is equal, or the first
that cannot be compared, decides. -/
inductive Machine.Search (m : Machine) (wanted : Value) (values : List Value) :
    Except Fault (Option Nat) → Prop
  | found {before after : List Value} {value : Value} (split : values = before ++ value :: after)
      (differ : ∀ other ∈ before, m.valuesEqual other wanted = .ok false)
      (equal : m.valuesEqual value wanted = .ok true) : Search m wanted values (.ok before.length)
  | absent (differ : ∀ other ∈ values, m.valuesEqual other wanted = .ok false) :
      Search m wanted values (.ok none)
  | stopped {before after : List Value} {value : Value} {fault : Fault}
      (split : values = before ++ value :: after)
      (differ : ∀ other ∈ before, m.valuesEqual other wanted = .ok false)
      (unfit : m.valuesEqual value wanted = .error fault) : Search m wanted values (.error fault)

namespace Machine

variable {m : Machine} {wanted value : Value} {values : List Value}

/-- A value that differs is passed over. -/
theorem Search.cons {result : Except Fault (Option Nat)} (h : m.Search wanted values result)
    (hv : m.valuesEqual value wanted = .ok false) :
    m.Search wanted (value :: values) (result.map (Option.map (· + 1))) := by
  cases h with
  | @found before after equal split differ hequal =>
    have hsplit : value :: values = (value :: before) ++ equal :: after := by rw [split]; rfl
    exact .found hsplit (List.forall_mem_cons.mpr ⟨hv, differ⟩) hequal
  | absent differ => exact .absent (List.forall_mem_cons.mpr ⟨hv, differ⟩)
  | @stopped before after unfit fault split differ hunfit =>
    have hsplit : value :: values = (value :: before) ++ unfit :: after := by rw [split]; rfl
    exact .stopped hsplit (List.forall_mem_cons.mpr ⟨hv, differ⟩) hunfit

/-- The values are searched in order. -/
theorem exists_search (m : Machine) (wanted : Value) (values : List Value) :
    ∃ result, m.Search wanted values result ∧
      ∀ start, Native.findValue m wanted start values = result.map (Option.map (start + ·)) := by
  induction values with
  | nil => exact ⟨.ok none, .absent (List.forall_mem_nil _), fun _ => rfl⟩
  | cons value values ih =>
    obtain ⟨result, hsearch, hfind⟩ := ih
    cases hv : m.valuesEqual value wanted with
    | error fault =>
      refine ⟨.error fault, .stopped (List.nil_append _).symm (List.forall_mem_nil _) hv,
        fun start => ?_⟩
      rw [Native.findValue, hv]
      rfl
    | ok equal =>
      cases equal with
      | true =>
        refine ⟨.ok (some 0), .found (List.nil_append _).symm (List.forall_mem_nil _) hv,
          fun start => ?_⟩
        rw [Native.findValue, hv]
        rfl
      | false =>
        refine ⟨_, hsearch.cons hv, fun start => ?_⟩
        rw [Native.findValue, hv]
        refine (hfind (start + 1)).trans ?_
        cases result with
        | error fault => rfl
        | ok found =>
          cases found with
          | none => rfl
          | some i => simp only [Except.map, Option.map_some, Nat.add_assoc, Nat.add_comm 1 i]

/-- Values that are all live can be compared. -/
theorem exists_valuesEqual {a b : Value} (h : m.Holds [a, b]) :
    ∃ equal, m.valuesEqual a b = .ok equal := by
  unfold valuesEqual
  split
  · rename_i x y
    obtain ⟨x', hx⟩ := Heap.live_iff.mp (h x (by simp))
    obtain ⟨y', hy⟩ := Heap.live_iff.mp (h y (by simp))
    rw [object_of_get? hx, object_of_get? hy]
    simp only [bind, Except.bind]
    split <;> exact ⟨_, rfl⟩
  · exact ⟨_, rfl⟩

/-- A search among live values does not stop at one that cannot be compared. -/
theorem Search.exists_ok {result : Except Fault (Option Nat)} (h : m.Search wanted values result)
    (hlive : m.Holds (wanted :: values)) : ∃ found, result = .ok found := by
  cases h with
  | found => exact ⟨_, rfl⟩
  | absent => exact ⟨_, rfl⟩
  | @stopped before after unfit fault split differ hunfit =>
    have hboth : m.Holds [unfit, wanted] := hlive.backed (.of_subset (by simp [split]))
    obtain ⟨equal, hequal⟩ := exists_valuesEqual hboth
    rw [hequal] at hunfit
    cases hunfit

end Machine

namespace Native

open Exec

section Searching

variable {m : Machine} {this wanted : Value} {rest : List Value} {items : List Value}
  (ha : m.arguments = .ok (this :: wanted :: rest)) (hs : m.elements this = .ok items)

include ha hs

omit ha hs in
/-- A search asks a machine for nothing but which values are equal. -/
theorem findValue_congr {m' : Machine}
    (h : ∀ value, m'.valuesEqual value wanted = m.valuesEqual value wanted) (start : Nat)
    (values : List Value) : findValue m' wanted start values = findValue m wanted start values := by
  induction values generalizing start with
  | nil => rfl
  | cons value values ih => simp only [findValue, h, ih]

/-- Searching the receiver for an argument is searching its items. -/
theorem findArgument_apply (result : Except Fault (Option Nat))
    (h : ∀ start, findValue m wanted start items = result.map (Option.map (start + ·))) :
    findArgument m = check result m := by
  have hwanted : argument 1 m = .ok wanted m := argument_eq_ok ha rfl
  have hthis : argument 0 m = .ok this m := argument_eq_ok ha rfl
  have hitems : query (·.elements this) m = .ok items m := by rw [query_apply, hs]
  rw [findArgument, bind_of_ok _ hwanted, bind_of_ok _ hthis, bind_of_ok _ hitems, query_apply,
    h 0, check, query_apply]
  cases result with
  | error fault => rfl
  | ok found => cases found <;> simp [Except.map]

/-- The position that was found is pushed, or minus one. -/
theorem run_listIndexOf {found : Option Nat}
    (h : ∀ start, findValue m wanted start items = .ok (found.map (start + ·))) :
    listIndexOf.run m =
      .ok () (m.pushed (.int32 (found.elim (-1) fun position => Int32.ofNat position))) := by
  have hfound : findArgument m = .ok found m := findArgument_apply ha hs (.ok found) h
  refine (bind_of_ok _ hfound).trans ?_
  cases found <;> exact push_eq_ok (frames_of_arguments ha)

/-- A list contains what is found in it. -/
theorem run_listContains {found : Option Nat}
    (h : ∀ start, findValue m wanted start items = .ok (found.map (start + ·))) :
    listContains.run m = .ok () (m.pushed (.ofBool found.isSome)) := by
  have hfound : findArgument m = .ok found m := findArgument_apply ha hs (.ok found) h
  exact (bind_of_ok _ hfound).trans (push_eq_ok (frames_of_arguments ha))

/-- A search whose comparison fails, fails with that fault. -/
theorem run_search_eq_error {fault : Fault}
    (h : ∀ start, findValue m wanted start items = .error fault) :
    listIndexOf.run m = .error fault m ∧ listContains.run m = .error fault m := by
  have hfound : findArgument m = .error fault m :=
    findArgument_apply ha hs (.error fault) h
  exact ⟨bind_of_error _ hfound, bind_of_error _ hfound⟩

end Searching

end Native

/-! ## Calls -/

/-- The second heap has the items in the list, and is the first one otherwise. -/
structure Heap.Rewrites (before : Heap) (handle : Handle) (items : List Value) (after : Heap) :
    Prop where
  items : ∃ object, before.get? handle = some object ∧
    after.get? handle = some (object.setSlot 0 (.list items.toArray))
  others : ∀ other, other ≠ handle → after.get? other = before.get? other
  live : after.live = before.live

namespace Machine

/-- Every call of the method on the list gives it the items and changes nothing else. -/
def Replaces (m : Machine) (handle : Handle) (method : MethodRef) (arguments : List Value)
    (items : List Value) : Prop :=
  ∃ heap, m.Returns method (.ref handle :: arguments) none heap ∧ m.heap.Rewrites handle items heap

/-- Every call of the method gives a new list of the items and changes nothing else. -/
def MakesList (m : Machine) (method : MethodRef) (arguments items : List Value) : Prop :=
  ∃ new heap, m.Returns method arguments (some (.ref new)) heap ∧
    m.heap.Gains new (m.listObject items) heap

open Library in
/-- The methods of the list that a handle names are the operations of the sequence of its items. -/
structure ListMethods (m : Machine) (handle : Handle) (xs : List Value) : Prop where
  add : ∀ x, m.Replaces handle (listMethod "Add" [item] .void) [x] (xs ++ [x])
  addRange : ∀ source, match m.elements source with
    | .ok ys => m.Replaces handle (listMethod "AddRange" [sequence] .void) [source] (xs ++ ys)
    | .error fault =>
      m.Refuses (listMethod "AddRange" [sequence] .void) [.ref handle, source] fault
  addSelf :
    m.Replaces handle (listMethod "AddRange" [sequence] .void) [.ref handle] (xs ++ xs)
  count : m.Returns (listMethod "get_Count" [] int32) [.ref handle]
    (some (.int32 (Int32.ofNat xs.length))) m.heap
  getItem : ∀ index : Int32,
    if h : 0 ≤ index.toInt ∧ index.toInt < xs.length then
      m.Returns (listMethod "get_Item" [int32] item) [.ref handle, .int32 index]
        (some xs[index.toInt.toNat]) m.heap
    else m.Refuses (listMethod "get_Item" [int32] item) [.ref handle, .int32 index]
      (.indexOutOfRange .list index.toInt xs.length)
  setItem : ∀ (index : Int32) x,
    if 0 ≤ index.toInt ∧ index.toInt < xs.length then
      m.Replaces handle (listMethod "set_Item" [int32, item] .void) [.int32 index, x]
        (xs.set index.toInt.toNat x)
    else m.Refuses (listMethod "set_Item" [int32, item] .void) [.ref handle, .int32 index, x]
      (.indexOutOfRange .list index.toInt xs.length)
  insert : ∀ (index : Int32) x,
    if 0 ≤ index.toInt ∧ index.toInt ≤ xs.length then
      m.Replaces handle (listMethod "Insert" [int32, item] .void) [.int32 index, x]
        (xs.insertIdx index.toInt.toNat x)
    else m.Refuses (listMethod "Insert" [int32, item] .void) [.ref handle, .int32 index, x]
      (.indexOutOfRange .list index.toInt xs.length)
  removeAt : ∀ index : Int32,
    if 0 ≤ index.toInt ∧ index.toInt < xs.length then
      m.Replaces handle (listMethod "RemoveAt" [int32] .void) [.int32 index]
        (xs.eraseIdx index.toInt.toNat)
    else m.Refuses (listMethod "RemoveAt" [int32] .void) [.ref handle, .int32 index]
      (.indexOutOfRange .list index.toInt xs.length)
  removeRange : ∀ index count : Int32,
    if Native.InBounds xs.length index.toInt count.toInt then
      m.Replaces handle (listMethod "RemoveRange" [int32, int32] .void)
        [.int32 index, .int32 count]
        (xs.take index.toInt.toNat ++ xs.drop (index.toInt + count.toInt).toNat)
    else ∃ wrong, m.Refuses (listMethod "RemoveRange" [int32, int32] .void)
      [.ref handle, .int32 index, .int32 count] (.indexOutOfRange .list wrong xs.length)
  getRange : ∀ index count : Int32,
    if Native.InBounds xs.length index.toInt count.toInt then
      if m.heap.isFull then
        m.Refuses (listMethod "GetRange" [int32, int32] list)
          [.ref handle, .int32 index, .int32 count] (.heap (.full m.heap.capacity))
      else m.MakesList (listMethod "GetRange" [int32, int32] list)
        [.ref handle, .int32 index, .int32 count]
        ((xs.drop index.toInt.toNat).take count.toInt.toNat)
    else ∃ wrong, m.Refuses (listMethod "GetRange" [int32, int32] list)
      [.ref handle, .int32 index, .int32 count] (.indexOutOfRange .list wrong xs.length)
  /-- The first item that equals the wanted one decides; among live values there is an answer. -/
  search : ∀ x, ∃ result, m.Search x xs result ∧
    (m.Holds (x :: xs) → ∃ found, result = .ok found) ∧
    match result with
    | .ok found =>
      m.Returns (listMethod "IndexOf" [item] int32) [.ref handle, x]
        (some (.int32 (found.elim (-1) fun position => Int32.ofNat position))) m.heap ∧
      m.Returns (listMethod "Contains" [item] bool) [.ref handle, x]
        (some (.ofBool found.isSome)) m.heap
    | .error fault =>
      m.Refuses (listMethod "IndexOf" [item] int32) [.ref handle, x] fault ∧
      m.Refuses (listMethod "Contains" [item] bool) [.ref handle, x] fault
  clear : m.Replaces handle (listMethod "Clear" [] .void) [] []

section Calling

variable {m : Machine} {handle : Handle} {xs : List Value}

/-- Putting other items into a list changes no other object. -/
theorem rewrites_withItems (hl : m.listOf handle = .ok xs.toArray) (items : List Value) :
    m.heap.Rewrites handle items (m.heap.withItems handle items) := by
  obtain ⟨object, hobject, -⟩ := slot_of_listOf hl
  refine ⟨⟨object, hobject, ?_⟩, fun other hne => ?_, rfl⟩
  · rw [Heap.withItems, Heap.get?_modify, if_pos rfl, hobject, Option.map_some]
  · rw [Heap.withItems, Heap.get?_modify, if_neg hne]

section Member

variable {name : String} {parameters : List TypeRef} {result : TypeRef} {native : Native}
  {arguments : List Value} (hm : m.Equipped) (hroom : m.calls.depth < m.calls.maxDepth)
  (hmember : Library.instanceMember name parameters result native ∈ Library.listMembers)

include hm hroom hmember

/-- A behaviour that ends with a value and a heap is a call that does so. -/
theorem list_returns {value : Option Value} {heap : Heap}
    (hvalue : value.isSome = (Library.instanceMember name parameters result native).returnsValue)
    (hrun : ∀ id, native.run (m.withFrame id arguments) =
      .ok () ((m.withFrame id arguments).finished value heap)) :
    m.Returns (Library.listMethod name parameters result) arguments value heap :=
  hm.returns hroom Library.listEntry_mem hmember hvalue hrun

/-- A call is refused with the fault of its behaviour. -/
theorem list_refuses {fault : Fault}
    (hrun : ∀ id, native.run (m.withFrame id arguments) =
      .error fault (m.withFrame id arguments)) :
    m.Refuses (Library.listMethod name parameters result) arguments fault :=
  hm.refuses hroom Library.listEntry_mem hmember hrun

/-- A behaviour that puts other items into the list is a call that replaces them. -/
theorem list_replaces (hl : m.listOf handle = .ok xs.toArray) {items : List Value}
    (hnone : (Library.instanceMember name parameters result native).returnsValue = false)
    (hrun : ∀ id, native.run (m.withFrame id (.ref handle :: arguments)) =
      .ok () { m.withFrame id (.ref handle :: arguments) with
        heap := m.heap.withItems handle items }) :
    m.Replaces handle (Library.listMethod name parameters result) arguments items :=
  ⟨_, list_returns hm hroom hmember hnone.symm hrun, rewrites_withItems hl items⟩

/-- A behaviour that replaces the items under a condition, and faults otherwise, is a call that does
so. -/
theorem list_replaces_if {p : Prop} [Decidable p] (hl : m.listOf handle = .ok xs.toArray)
    {items : List Value} {fault : Fault}
    (hnone : (Library.instanceMember name parameters result native).returnsValue = false)
    (hrun : p → ∀ id, native.run (m.withFrame id (.ref handle :: arguments)) =
      .ok () { m.withFrame id (.ref handle :: arguments) with
        heap := m.heap.withItems handle items })
    (hfault : ¬ p → ∀ id, native.run (m.withFrame id (.ref handle :: arguments)) =
      .error fault (m.withFrame id (.ref handle :: arguments))) :
    if p then m.Replaces handle (Library.listMethod name parameters result) arguments items
    else m.Refuses (Library.listMethod name parameters result) (.ref handle :: arguments) fault := by
  split
  · rename_i h
    exact list_replaces hm hroom hmember hl hnone (hrun h)
  · rename_i h
    exact list_refuses hm hroom hmember (hfault h)

end Member

/-- The items of a list are its elements. -/
theorem elements_of_listOf (hl : m.listOf handle = .ok xs.toArray) :
    m.elements (.ref handle) = .ok xs := by
  obtain ⟨object, hobject, hslot⟩ := slot_of_listOf hl
  refine bind_eq_ok_iff.mpr ⟨handle, rfl, bind_eq_ok_iff.mpr ⟨object, object_of_get? hobject, ?_⟩⟩
  rw [hslot]
  rfl

/-- The sum of two 32-bit integers is no greater than the greatest 64-bit word. -/
theorem toInt_add_toInt_lt (a b : Int32) : a.toInt64.toInt + b.toInt64.toInt < 2 ^ 63 := by
  have ha := a.toInt_lt
  have hb := b.toInt_lt
  rw [Int32.toInt_toInt64, Int32.toInt_toInt64]
  omega

section Methods

open Library

variable (hm : m.Equipped) (hroom : m.calls.depth < m.calls.maxDepth)
  (hl : m.listOf handle = .ok xs.toArray)

include hm hroom hl

/-- `Add` puts a value behind the others. -/
theorem list_add (x : Value) :
    m.Replaces handle (listMethod "Add" [item] .void) [x] (xs ++ [x]) :=
  list_replaces hm hroom (List.mem_of_getElem? (i := 2) rfl) hl rfl fun id =>
    Native.run_listAdd (m := m.withFrame id _) rfl (Native.listAt_ref hl)

/-- `AddRange` puts all elements of its argument behind the others, or fails where they cannot be
read. -/
theorem list_addRange (source : Value) : match m.elements source with
    | .ok ys => m.Replaces handle (listMethod "AddRange" [sequence] .void) [source] (xs ++ ys)
    | .error fault =>
      m.Refuses (listMethod "AddRange" [sequence] .void) [.ref handle, source] fault := by
  have hmember : instanceMember "AddRange" [sequence] .void .listAddRange ∈ listMembers :=
    List.mem_of_getElem? (i := 3) rfl
  cases hsource : m.elements source with
  | ok ys =>
    exact list_replaces hm hroom hmember hl rfl fun id =>
      Native.run_listAddRange (m := m.withFrame id _) rfl (Native.listAt_ref hl) hsource
  | error fault =>
    exact list_refuses hm hroom hmember fun id =>
      Native.run_listAddRange_eq_error (m := m.withFrame id _) rfl hsource

/-- `get_Count` gives the number of items. -/
theorem list_count : m.Returns (listMethod "get_Count" [] int32) [.ref handle]
    (some (.int32 (Int32.ofNat xs.length))) m.heap :=
  list_returns hm hroom (List.mem_of_getElem? (i := 4) rfl) rfl fun id =>
    Native.run_listCount (m := m.withFrame id _) rfl (Native.listAt_ref hl)

/-- `get_Item` gives the item of an index in range and refuses any other index. -/
theorem list_getItem (index : Int32) :
    if h : 0 ≤ index.toInt ∧ index.toInt < xs.length then
      m.Returns (listMethod "get_Item" [int32] item) [.ref handle, .int32 index]
        (some xs[index.toInt.toNat]) m.heap
    else m.Refuses (listMethod "get_Item" [int32] item) [.ref handle, .int32 index]
      (.indexOutOfRange .list index.toInt xs.length) := by
  have hmember : instanceMember "get_Item" [int32] item .listGetItem ∈ listMembers :=
    List.mem_of_getElem? (i := 5) rfl
  have hat : Native.listAt m (.ref handle) = .ok (handle, xs.toArray) := Native.listAt_ref hl
  split
  · rename_i h
    have hitem : xs[index.toInt64.toInt.toNat]? = some xs[index.toInt.toNat] := by
      rw [Int32.toInt_toInt64]
      exact List.getElem?_eq_getElem _
    exact list_returns hm hroom hmember rfl fun id =>
      Native.run_listGetItem (m := m.withFrame id _) rfl hat rfl
        ((Int32.toInt_toInt64 index).symm ▸ h.1) hitem
  · rename_i h
    rw [← Int32.toInt_toInt64] at h ⊢
    exact list_refuses hm hroom hmember fun id =>
      Native.run_listGetItem_eq_error (m := m.withFrame id _) rfl hat rfl h

/-- `set_Item` replaces the item of an index in range and refuses any other index. -/
theorem list_setItem (index : Int32) (x : Value) :
    if 0 ≤ index.toInt ∧ index.toInt < xs.length then
      m.Replaces handle (listMethod "set_Item" [int32, item] .void) [.int32 index, x]
        (xs.set index.toInt.toNat x)
    else m.Refuses (listMethod "set_Item" [int32, item] .void) [.ref handle, .int32 index, x]
      (.indexOutOfRange .list index.toInt xs.length) := by
  have hmember : instanceMember "set_Item" [int32, item] .void .listSetItem ∈ listMembers :=
    List.mem_of_getElem? (i := 6) rfl
  have hat : Native.listAt m (.ref handle) = .ok (handle, xs.toArray) := Native.listAt_ref hl
  rw [← Int32.toInt_toInt64]
  exact list_replaces_if hm hroom hmember hl rfl
    (fun h id => Native.run_listSetItem (m := m.withFrame id _) rfl hat rfl h)
    fun h id => Native.run_listSetItem_eq_error (m := m.withFrame id _) rfl hat rfl h

/-- `Insert` makes room at an index up to the length and refuses any other index. -/
theorem list_insert (index : Int32) (x : Value) :
    if 0 ≤ index.toInt ∧ index.toInt ≤ xs.length then
      m.Replaces handle (listMethod "Insert" [int32, item] .void) [.int32 index, x]
        (xs.insertIdx index.toInt.toNat x)
    else m.Refuses (listMethod "Insert" [int32, item] .void) [.ref handle, .int32 index, x]
      (.indexOutOfRange .list index.toInt xs.length) := by
  have hmember : instanceMember "Insert" [int32, item] .void .listInsert ∈ listMembers :=
    List.mem_of_getElem? (i := 10) rfl
  have hat : Native.listAt m (.ref handle) = .ok (handle, xs.toArray) := Native.listAt_ref hl
  rw [← Int32.toInt_toInt64]
  exact list_replaces_if hm hroom hmember hl rfl
    (fun h id => Native.run_listInsert (m := m.withFrame id _) rfl hat rfl h)
    fun h id => Native.run_listInsert_eq_error (m := m.withFrame id _) rfl hat rfl h

/-- `RemoveAt` takes out the item of an index in range and refuses any other index. -/
theorem list_removeAt (index : Int32) :
    if 0 ≤ index.toInt ∧ index.toInt < xs.length then
      m.Replaces handle (listMethod "RemoveAt" [int32] .void) [.int32 index]
        (xs.eraseIdx index.toInt.toNat)
    else m.Refuses (listMethod "RemoveAt" [int32] .void) [.ref handle, .int32 index]
      (.indexOutOfRange .list index.toInt xs.length) := by
  have hmember : instanceMember "RemoveAt" [int32] .void .listRemoveAt ∈ listMembers :=
    List.mem_of_getElem? (i := 11) rfl
  have hat : Native.listAt m (.ref handle) = .ok (handle, xs.toArray) := Native.listAt_ref hl
  rw [← Int32.toInt_toInt64]
  exact list_replaces_if hm hroom hmember hl rfl
    (fun h id => Native.run_listRemoveAt (m := m.withFrame id _) rfl hat rfl h)
    fun h id => Native.run_listRemoveAt_eq_error (m := m.withFrame id _) rfl hat rfl h

/-- `RemoveRange` takes out a range that lies in the list and refuses any other one. -/
theorem list_removeRange (index count : Int32) :
    if Native.InBounds xs.length index.toInt count.toInt then
      m.Replaces handle (listMethod "RemoveRange" [int32, int32] .void)
        [.int32 index, .int32 count]
        (xs.take index.toInt.toNat ++ xs.drop (index.toInt + count.toInt).toNat)
    else ∃ wrong, m.Refuses (listMethod "RemoveRange" [int32, int32] .void)
      [.ref handle, .int32 index, .int32 count] (.indexOutOfRange .list wrong xs.length) := by
  have hmember : instanceMember "RemoveRange" [int32, int32] .void .listRemoveRange ∈
      listMembers := List.mem_of_getElem? (i := 12) rfl
  have hat : Native.listAt m (.ref handle) = .ok (handle, xs.toArray) := Native.listAt_ref hl
  have hsum := toInt_add_toInt_lt index count
  rw [← Int32.toInt_toInt64, ← Int32.toInt_toInt64 count]
  split
  · rename_i h
    exact list_replaces hm hroom hmember hl rfl fun id =>
      Native.run_listRemoveRange (m := m.withFrame id _) rfl hat rfl rfl hsum h
  · rename_i h
    have hbounds := Native.bounds_eq_error (fun _ _ => hsum) h
    exact ⟨_, list_refuses hm hroom hmember fun id =>
      (Native.run_range_eq_error (m := m.withFrame id _) rfl hat rfl rfl hbounds).2⟩

/-- `GetRange` makes a list of a range that lies in the list and refuses any other one. The new list
needs room on the heap. -/
theorem list_getRange (index count : Int32) :
    if Native.InBounds xs.length index.toInt count.toInt then
      if m.heap.isFull then
        m.Refuses (listMethod "GetRange" [int32, int32] list)
          [.ref handle, .int32 index, .int32 count] (.heap (.full m.heap.capacity))
      else m.MakesList (listMethod "GetRange" [int32, int32] list)
        [.ref handle, .int32 index, .int32 count]
        ((xs.drop index.toInt.toNat).take count.toInt.toNat)
    else ∃ wrong, m.Refuses (listMethod "GetRange" [int32, int32] list)
      [.ref handle, .int32 index, .int32 count] (.indexOutOfRange .list wrong xs.length) := by
  have hat : Native.listAt m (.ref handle) = .ok (handle, xs.toArray) := Native.listAt_ref hl
  have hsum := toInt_add_toInt_lt index count
  rw [← Int32.toInt_toInt64, ← Int32.toInt_toInt64 count]
  split
  · rename_i h
    split
    · rename_i hfull
      exact list_refuses hm hroom copying_mem fun id =>
        Native.run_listGetRange_eq_error (m := m.withFrame id _) rfl hat rfl rfl hsum h hfull
    · rename_i hfull
      refine ⟨_, _, ?_, hm.heap.gains_add _⟩
      exact list_returns hm hroom copying_mem rfl fun id =>
        Native.run_listGetRange_eq_ok (m := m.withFrame id _) rfl hat rfl rfl hsum h
          (Bool.eq_false_iff.mpr hfull)
  · rename_i h
    have hbounds := Native.bounds_eq_error (fun _ _ => hsum) h
    exact ⟨_, list_refuses hm hroom copying_mem fun id =>
      (Native.run_range_eq_error (m := m.withFrame id _) rfl hat rfl rfl hbounds).1⟩

omit hm hroom hl in
/-- In the frame of a call the same value is found. -/
theorem findValue_withFrame (id : MethodId) (arguments : List Value) (x : Value) (start : Nat) :
    Native.findValue (m.withFrame id arguments) x start xs = Native.findValue m x start xs := by
  have hsame (value : Value) : (m.withFrame id arguments).valuesEqual value x =
      m.valuesEqual value x := rfl
  exact Native.findValue_congr hsame start xs

/-- Both searching methods answer from one search. -/
theorem list_search_ok {x : Value} {found : Option Nat}
    (hfind : ∀ start, Native.findValue m x start xs = .ok (found.map (start + ·))) :
    m.Returns (listMethod "IndexOf" [item] int32) [.ref handle, x]
      (some (.int32 (found.elim (-1) fun position => Int32.ofNat position))) m.heap ∧
    m.Returns (listMethod "Contains" [item] bool) [.ref handle, x]
      (some (.ofBool found.isSome)) m.heap := by
  have hindex : instanceMember "IndexOf" [item] int32 .listIndexOf ∈ listMembers :=
    List.mem_of_getElem? (i := 8) rfl
  have hcontains : instanceMember "Contains" [item] bool .listContains ∈ listMembers :=
    List.mem_of_getElem? (i := 9) rfl
  have hself : m.elements (.ref handle) = .ok xs := elements_of_listOf hl
  constructor
  · exact list_returns hm hroom hindex rfl fun id =>
      Native.run_listIndexOf (m := m.withFrame id _) rfl hself fun start =>
        (findValue_withFrame id _ x start).trans (hfind start)
  · exact list_returns hm hroom hcontains rfl fun id =>
      Native.run_listContains (m := m.withFrame id _) rfl hself fun start =>
        (findValue_withFrame id _ x start).trans (hfind start)

/-- `IndexOf` and `Contains` fail where a comparison on their way does. -/
theorem list_search_error {x : Value} {fault : Fault}
    (hfind : ∀ start, Native.findValue m x start xs = .error fault) :
    m.Refuses (listMethod "IndexOf" [item] int32) [.ref handle, x] fault ∧
    m.Refuses (listMethod "Contains" [item] bool) [.ref handle, x] fault := by
  have hindex : instanceMember "IndexOf" [item] int32 .listIndexOf ∈ listMembers :=
    List.mem_of_getElem? (i := 8) rfl
  have hcontains : instanceMember "Contains" [item] bool .listContains ∈ listMembers :=
    List.mem_of_getElem? (i := 9) rfl
  have hself : m.elements (.ref handle) = .ok xs := elements_of_listOf hl
  have hrun (id : MethodId) := Native.run_search_eq_error
    (m := m.withFrame id [.ref handle, x]) rfl hself fun start =>
      (findValue_withFrame id _ x start).trans (hfind start)
  exact ⟨list_refuses hm hroom hindex fun id => (hrun id).1,
    list_refuses hm hroom hcontains fun id => (hrun id).2⟩

/-- `Clear` takes out all items. -/
theorem list_clear : m.Replaces handle (listMethod "Clear" [] .void) [] [] :=
  list_replaces hm hroom (List.mem_of_getElem? (i := 13) rfl) hl rfl fun id =>
    Native.run_listClear (m := m.withFrame id _) rfl (Native.listAt_ref hl)

end Methods

/-- Lists are sequences. Wherever a frame can be entered, and whatever was loaded and done before,
the methods of a live list are the operations of the sequence of its items: what they give, when
they succeed and with which fault they fail otherwise. No call changes another object, a call that
fails changes none at all, and the one method that makes an object makes exactly the list that it
gives. -/
theorem list_methods (hm : m.Equipped) (hroom : m.calls.depth < m.calls.maxDepth)
    (hl : m.listOf handle = .ok xs.toArray) : m.ListMethods handle xs where
  add := list_add hm hroom hl
  addRange := list_addRange hm hroom hl
  addSelf := by
    have hself := list_addRange hm hroom hl (.ref handle)
    rwa [elements_of_listOf hl] at hself
  count := list_count hm hroom hl
  getItem := list_getItem hm hroom hl
  setItem := list_setItem hm hroom hl
  insert := list_insert hm hroom hl
  removeAt := list_removeAt hm hroom hl
  removeRange := list_removeRange hm hroom hl
  getRange := list_getRange hm hroom hl
  search x := by
    obtain ⟨result, hsearch, hfind⟩ := exists_search m x xs
    refine ⟨result, hsearch, hsearch.exists_ok, ?_⟩
    cases result with
    | ok found => exact list_search_ok hm hroom hl hfind
    | error fault => exact list_search_error hm hroom hl hfind
  clear := list_clear hm hroom hl

open Library in
/-- A list of one number gets a second one behind it, has a copy made of it, and has no position
behind the gap that follows the number. -/
theorem list_methods_one :
    (oneListed 2).Equipped ∧ (oneListed 2).listOf ⟨0, 0⟩ = .ok #[.int32 5] ∧
      (oneListed 2).Replaces ⟨0, 0⟩ (listMethod "Insert" [int32, item] .void)
        [.int32 1, .int32 6] [.int32 5, .int32 6] ∧
      (oneListed 2).MakesList (listMethod "GetRange" [int32, int32] list)
        [.ref ⟨0, 0⟩, .int32 0, .int32 1] [.int32 5] ∧
      (oneListed 2).Refuses (listMethod "Insert" [int32, item] .void)
        [.ref ⟨0, 0⟩, .int32 2, .int32 6] (.indexOutOfRange .list 2 1) := by
  have hattained := attainable_oneListed 2
  have hlist : (oneListed 2).listOf ⟨0, 0⟩ = .ok [Value.int32 5].toArray := by decide +kernel
  have hmethods : (oneListed 2).ListMethods ⟨0, 0⟩ [.int32 5] :=
    list_methods hattained.equipped (by decide +kernel) hlist
  have hroom : (oneListed 2).heap.isFull = false := by decide +kernel
  have hcopied := hmethods.getRange 0 1
  rw [if_pos (by decide), if_neg (by simp [hroom])] at hcopied
  exact ⟨hattained.equipped, hlist, hmethods.insert 1 (.int32 6), hcopied,
    hmethods.insert 2 (.int32 6)⟩

end Calling

end Machine

end ManagedCode
