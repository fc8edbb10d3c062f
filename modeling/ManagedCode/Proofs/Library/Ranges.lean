import Mathlib.Algebra.Group.Int.Defs
import ManagedCode.Proofs.Execution.Attainability
import ManagedCode.Proofs.Library.Calls

/-!
# Ranges of lists

A range is given by a start and a count, which are integers of either width. Its bounds are checked
in 64-bit words: the start against the length, then the sum of the start and the count. As long as
the sum does not exceed the greatest word, exactly the ranges that lie in the list pass, and a
refusal names the number that is wrong. A greater sum wraps around, and the refusal names a number
that nobody gave.
-/

namespace ManagedCode

namespace Native

open Exec

/-! ## Receivers -/

/-- The list that a value refers to, and its items. -/
def listAt (m : Machine) (value : Value) : Except Fault (Handle × Array Value) := do
  let handle ← value.toHandle
  let items ← m.listOf handle
  return (handle, items)

section Receiver

variable {m : Machine} {this : Value} {rest : List Value}

/-- A reference to a list is a list. -/
theorem listAt_ref {handle : Handle} {items : Array Value} (h : m.listOf handle = .ok items) :
    listAt m (.ref handle) = .ok (handle, items) :=
  bind_eq_ok_iff.mpr ⟨handle, rfl, bind_eq_ok_iff.mpr ⟨items, h, rfl⟩⟩

/-- Asking for the receiver and its items is one question. -/
theorem receiverItems_apply (h : m.arguments = .ok (this :: rest)) :
    receiverItems m = query (listAt · this) m := by
  have hthis : argument 0 m = .ok this m := argument_eq_ok h rfl
  have hreceiver : receiver m = check this.toHandle m := by rw [receiver, bind_of_ok _ hthis]
  rw [query_apply]
  cases hhandle : this.toHandle with
  | error fault =>
    have hat : listAt m this = .error fault := by
      rw [listAt, hhandle]
      rfl
    rw [hhandle] at hreceiver
    rw [hat]
    exact bind_of_error _ hreceiver
  | ok handle =>
    rw [hhandle] at hreceiver
    cases hlist : m.listOf handle with
    | error fault =>
      have hat : listAt m this = .error fault := by
        simp only [listAt, hhandle, hlist, bind, Except.bind]
      have hquery : query (·.listOf handle) m = .error fault m := by rw [query_apply, hlist]
      rw [hat]
      exact (bind_of_ok _ hreceiver).trans (bind_of_error _ hquery)
    | ok items =>
      have hat : listAt m this = .ok (handle, items) := by
        simp only [listAt, hhandle, hlist, bind, Except.bind, pure, Except.pure]
      have hquery : query (·.listOf handle) m = .ok items m := by rw [query_apply, hlist]
      rw [hat]
      exact (bind_of_ok _ hreceiver).trans (bind_of_ok _ hquery)

/-- The items of the receiver are those of the list that the first argument is. -/
theorem receiverItems_eq_ok (h : m.arguments = .ok (this :: rest)) {handle : Handle}
    {items : Array Value} (hl : listAt m this = .ok (handle, items)) :
    receiverItems m = .ok (handle, items) m := by
  rw [receiverItems_apply h, query_apply, hl]

end Receiver

/-! ## Positions -/

section Positions

variable {value : Value} {index : Int64} {length : Nat} (hv : value.toIndex = .ok index)

include hv

/-- A position is checked against the length, or one more. -/
theorem positionOf_apply (inclusive : Bool) (m : Machine) :
    positionOf value length inclusive m =
      check (position index (if inclusive then length + 1 else length) length) m := by
  rw [positionOf, hv]
  rfl

/-- A position of the list is found. -/
theorem positionOf_item (h : 0 ≤ index.toInt ∧ index.toInt < length) (m : Machine) :
    positionOf value length false m = .ok index.toInt.toNat m := by
  rw [positionOf_apply hv]
  exact check_eq_ok (if_pos h)

/-- An index that is not below the length has no item. -/
theorem positionOf_item_eq_error (h : ¬ (0 ≤ index.toInt ∧ index.toInt < length)) (m : Machine) :
    positionOf value length false m = .error (.indexOutOfRange .list index.toInt length) m := by
  rw [positionOf_apply hv]
  exact check_eq_error (if_neg h)

/-- The position behind the last item is found too where an item can be put there. -/
theorem positionOf_gap (h : 0 ≤ index.toInt ∧ index.toInt ≤ length) (m : Machine) :
    positionOf value length true m = .ok index.toInt.toNat m := by
  rw [positionOf_apply hv]
  exact check_eq_ok (if_pos (by simp only [if_true]; omega))

/-- An index beyond the length is not between items. -/
theorem positionOf_gap_eq_error (h : ¬ (0 ≤ index.toInt ∧ index.toInt ≤ length)) (m : Machine) :
    positionOf value length true m = .error (.indexOutOfRange .list index.toInt length) m := by
  rw [positionOf_apply hv]
  exact check_eq_error (if_neg (by simp only [if_true]; omega))

end Positions

/-! ## Bounds -/

/-- The start and end of the range that an index and a count give in a list of a length. -/
def bounds (length : Nat) (index count : Int64) : Except Fault (Nat × Nat) := do
  let start ← position index (length + 1) length
  let stop ← position (Int64.ofNat start + count) (length + 1) length
  if stop < start then .error (.indexOutOfRange .list count.toInt length) else .ok (start, stop)

/-- The range lies in a list of the length. -/
def InBounds (length : Nat) (index count : Int) : Prop :=
  0 ≤ index ∧ 0 ≤ count ∧ index + count ≤ length

instance (length : Nat) (index count : Int) : Decidable (InBounds length index count) :=
  inferInstanceAs (Decidable (_ ∧ _))

/-- The sum of a position and a count is exact unless it exceeds the greatest word. -/
theorem toInt_ofNat_add {start : Nat} {count : Int64} (h : start + count.toInt < 2 ^ 63)
    (hs : start < 2 ^ 63) : (Int64.ofNat start + count).toInt = start + count.toInt := by
  have hle := count.le_toInt
  rw [Int64.toInt_add, Int64.toInt_ofNat_of_lt hs]
  exact Int.bmod_eq_of_le (by omega) (by omega)

/-- The number that a refusal names: the start if no item or end is there, else the sum if none is
there, and else the count, which is negative then. -/
def wrongBound (length : Nat) (index sum count : Int) : Int :=
  if ¬ (0 ≤ index ∧ index ≤ length) then index
  else if ¬ (0 ≤ sum ∧ sum ≤ length) then sum
  else count

/-- Bounds are given exactly where the start, the sum as a word and the length are in order. -/
theorem bounds_eq (length : Nat) (index count : Int64) :
    let sum := (Int64.ofNat index.toInt.toNat + count).toInt
    bounds length index count =
      if 0 ≤ index.toInt ∧ index.toInt ≤ sum ∧ sum ≤ length then
        .ok (index.toInt.toNat, sum.toNat)
      else
        .error (.indexOutOfRange .list (wrongBound length index.toInt sum count.toInt) length) := by
  intro sum
  by_cases hindex : 0 ≤ index.toInt ∧ index.toInt ≤ length
  · have hstart : position index (length + 1) length = .ok index.toInt.toNat :=
      if_pos (by omega)
    rw [bounds, hstart]
    by_cases hsum : 0 ≤ sum ∧ sum ≤ length
    · have hstop : position (Int64.ofNat index.toInt.toNat + count) (length + 1) length =
          .ok sum.toNat :=
        if_pos (by omega)
      simp only [bind, Except.bind, hstop]
      by_cases hle : index.toInt ≤ sum
      · rw [if_neg (by omega), if_pos ⟨hindex.1, hle, hsum.2⟩]
      · rw [if_pos (by omega), if_neg (by omega), wrongBound, if_neg (by omega),
          if_neg (by omega)]
    · have hstop : position (Int64.ofNat index.toInt.toNat + count) (length + 1) length =
          .error (.indexOutOfRange .list sum length) :=
        if_neg (by omega)
      simp only [bind, Except.bind, hstop]
      rw [if_neg (by omega), wrongBound, if_neg (by omega), if_pos hsum]
  · have hstart : position index (length + 1) length =
        .error (.indexOutOfRange .list index.toInt length) :=
      if_neg (by omega)
    rw [bounds, hstart, if_neg, wrongBound, if_pos hindex]
    · rfl
    · -- A start behind the length is not followed by a sum within it.
      omega

/-- A range that lies in the list has its bounds. -/
theorem bounds_eq_ok {length : Nat} {index count : Int64}
    (hsum : index.toInt + count.toInt < 2 ^ 63)
    (h : InBounds length index.toInt count.toInt) :
    bounds length index count = .ok (index.toInt.toNat, (index.toInt + count.toInt).toNat) := by
  obtain ⟨hindex, hcount, hle⟩ := h
  have hlt := index.toInt_lt
  have hword : (Int64.ofNat index.toInt.toNat + count).toInt = index.toInt + count.toInt := by
    rw [toInt_ofNat_add (by omega) (by omega)]
    omega
  rw [bounds_eq, hword, if_pos (by omega)]

/-- A range that does not lie in the list is refused. If its start does lie there, and the sum does
not exceed the greatest word, the refusal goes by the sum itself. -/
theorem bounds_eq_error {length : Nat} {index count : Int64}
    (hsum : 0 ≤ index.toInt → index.toInt ≤ length → index.toInt + count.toInt < 2 ^ 63)
    (h : ¬ InBounds length index.toInt count.toInt) :
    bounds length index count = .error (.indexOutOfRange .list
      (wrongBound length index.toInt (index.toInt + count.toInt) count.toInt) length) := by
  have hlt := index.toInt_lt
  by_cases hindex : 0 ≤ index.toInt ∧ index.toInt ≤ length
  · have hfits := hsum hindex.1 hindex.2
    have hword : (Int64.ofNat index.toInt.toNat + count).toInt = index.toInt + count.toInt := by
      rw [toInt_ofNat_add (by omega) (by omega)]
      omega
    unfold InBounds at h
    rw [bounds_eq, hword, if_neg (by omega)]
  · rw [bounds_eq, if_neg (by omega), wrongBound, wrongBound, if_pos hindex, if_pos hindex]

/-- Asking for the bounds of the range that the arguments give is one question. -/
theorem rangeArguments_apply {m : Machine} {this first second : Value} {rest : List Value}
    {handle : Handle} {items : Array Value} {index count : Int64}
    (ha : m.arguments = .ok (this :: first :: second :: rest))
    (hl : listAt m this = .ok (handle, items)) (hi : first.toIndex = .ok index)
    (hc : second.toIndex = .ok count) :
    rangeArguments m = check (bounds items.size index count) m := by
  have hfirst : argument 1 m = .ok first m := argument_eq_ok ha rfl
  have hsecond : argument 2 m = .ok second m := argument_eq_ok ha rfl
  have hitems : receiverItems m = .ok (handle, items) m := receiverItems_eq_ok ha hl
  have hcount : check second.toIndex m = .ok count m := check_eq_ok hc
  have hposition : positionOf first items.size true m =
      check (position index (items.size + 1) items.size) m := positionOf_apply hi true m
  rw [rangeArguments, bind_of_ok _ hfirst, bind_of_ok _ hsecond, bind_of_ok _ hitems, bounds]
  cases hstart : position index (items.size + 1) items.size with
  | error fault =>
    rw [hstart] at hposition
    exact bind_of_error _ hposition
  | ok start =>
    rw [hstart] at hposition
    refine (bind_of_ok _ hposition).trans ((bind_of_ok _ hcount).trans ?_)
    show (check (position (Int64.ofNat start + count) (items.size + 1) items.size) >>= _) m =
      check (position (Int64.ofNat start + count) (items.size + 1) items.size >>= _) m
    cases position (Int64.ofNat start + count) (items.size + 1) items.size with
    | error fault => rfl
    | ok stop =>
      refine (bind_of_ok _ (check_eq_ok rfl)).trans ?_
      show _ = check (if stop < start then _ else _) m
      split <;> rfl

end Native

/-! ## Lists in the heap -/

/-- The heap with other items in the list that a handle names. -/
def Heap.withItems (heap : Heap) (handle : Handle) (items : List Value) : Heap :=
  heap.modify handle (·.setSlot 0 (.list items.toArray))

/-- A new list with the items. -/
def Machine.listObject (m : Machine) (items : List Value) : Object :=
  ⟨m.core.list, [.list items.toArray]⟩

namespace Exec

/-- A list is made where there is room for it. -/
theorem allocList_eq_ok {m : Machine} (hr : m.heap.isFull = false) (items : List Value) :
    allocList items.toArray m =
      .ok (.ref (m.heap.add (m.listObject items)).1)
        { m with heap := (m.heap.add (m.listObject items)).2 } :=
  bind_of_ok _ (store_of_room hr (m.listObject items))

/-- Without room on the heap, no list is made. -/
theorem allocList_eq_error {m : Machine} (hr : m.heap.isFull = true) (items : List Value) :
    allocList items.toArray m = .error (.heap (.full m.heap.capacity)) m := by
  have hcore : query (fun m => .ok m.core.list) m = .ok m.core.list m := rfl
  exact (bind_of_ok _ hcore).trans (bind_of_error _ (store_of_full hr (m.listObject items)))

end Exec

namespace Native

open Exec

section Running

variable {m : Machine} {this first second : Value} {rest : List Value} {handle : Handle}
  {items : List Value} {index count : Int64}
  (ha : m.arguments = .ok (this :: first :: second :: rest))
  (hl : listAt m this = .ok (handle, items.toArray)) (hi : first.toIndex = .ok index)
  (hc : second.toIndex = .ok count) (hsum : index.toInt + count.toInt < 2 ^ 63)

include ha hl hi hc

/-- Both behaviours refuse a range whose bounds are refused. -/
theorem run_range_eq_error {fault : Fault} (h : bounds items.length index count = .error fault) :
    listGetRange.run m = .error fault m ∧ listRemoveRange.run m = .error fault m := by
  have hrange : rangeArguments m = .error fault m := by
    rw [rangeArguments_apply ha hl hi hc]
    exact check_eq_error h
  exact ⟨bind_of_error _ hrange, bind_of_error _ hrange⟩

include hsum

/-- A range that lies in the list is given by its ends. -/
theorem rangeArguments_eq_ok (h : InBounds items.length index.toInt count.toInt) :
    rangeArguments m = .ok (index.toInt.toNat, (index.toInt + count.toInt).toNat) m := by
  rw [rangeArguments_apply ha hl hi hc]
  exact check_eq_ok (bounds_eq_ok hsum h)

/-- Removing a range keeps what is before and behind it. -/
theorem run_listRemoveRange (h : InBounds items.length index.toInt count.toInt) :
    let kept := items.take index.toInt.toNat ++ items.drop (index.toInt + count.toInt).toNat
    listRemoveRange.run m = .ok () { m with heap := m.heap.withItems handle kept } := by
  intro kept
  have hitems : receiverItems m = .ok (handle, items.toArray) m := receiverItems_eq_ok ha hl
  have hkept : items.toArray.extract 0 index.toInt.toNat ++
      items.toArray.extract (index.toInt + count.toInt).toNat items.toArray.size =
        kept.toArray := by
    simp [kept, List.extract_eq_take_drop, List.take_of_length_le]
  refine (bind_of_ok _ (rangeArguments_eq_ok ha hl hi hc hsum h)).trans ?_
  refine (bind_of_ok _ hitems).trans ?_
  dsimp only
  rw [hkept]
  rfl

/-- Copying a range makes a new list of it where there is room, and faults where there is none. -/
theorem run_listGetRange (h : InBounds items.length index.toInt count.toInt) :
    listGetRange.run m =
      (allocList ((items.drop index.toInt.toNat).take count.toInt.toNat).toArray >>= push) m := by
  have hitems : receiverItems m = .ok (handle, items.toArray) m := receiverItems_eq_ok ha hl
  have hcopied : items.toArray.extract index.toInt.toNat (index.toInt + count.toInt).toNat =
      ((items.drop index.toInt.toNat).take count.toInt.toNat).toArray := by
    obtain ⟨hindex, hcount, -⟩ := h
    rw [List.extract_toArray, List.extract_eq_take_drop]
    congr 2
    omega
  refine (bind_of_ok _ (rangeArguments_eq_ok ha hl hi hc hsum h)).trans ?_
  refine (bind_of_ok _ hitems).trans ?_
  dsimp only
  rw [hcopied]

/-- With room on the heap, the range is copied to a new list. -/
theorem run_listGetRange_eq_ok (h : InBounds items.length index.toInt count.toInt)
    (hr : m.heap.isFull = false) :
    let copied := m.listObject ((items.drop index.toInt.toNat).take count.toInt.toNat)
    listGetRange.run m = .ok ()
      (Machine.pushed { m with heap := (m.heap.add copied).2 } (.ref (m.heap.add copied).1)) := by
  rw [run_listGetRange ha hl hi hc hsum h, bind_of_ok _ (allocList_eq_ok hr _)]
  exact push_eq_ok (frames_of_arguments ha)

/-- Without room on the heap, nothing is copied. -/
theorem run_listGetRange_eq_error (h : InBounds items.length index.toInt count.toInt)
    (hr : m.heap.isFull = true) :
    listGetRange.run m = .error (.heap (.full m.heap.capacity)) m := by
  rw [run_listGetRange ha hl hi hc hsum h]
  exact bind_of_error _ (allocList_eq_error hr _)

end Running

end Native

/-! ## Completion -/

namespace Library

/-- The built-in type of lists. -/
def listEntry : TypeEntry where
  nameSpace := collections
  name := "List`1"
  fields := [("Values", object)]
  members := listMembers

/-- Lists are among the built-in types. -/
theorem listEntry_mem : listEntry ∈ types := List.mem_of_getElem? (i := 10) rfl

/-- A reference to a method of lists. -/
def listMethod (name : String) (parameters : List TypeRef) (result : TypeRef) : MethodRef :=
  ⟨list, name, ⟨false, parameters, result⟩⟩

/-- The method that copies a range is a member of lists. -/
theorem copying_mem : instanceMember "GetRange" [int32, int32] list .listGetRange ∈ listMembers :=
  List.mem_of_getElem? (i := 7) rfl

end Library

/-- A machine with a list of one number. -/
def oneListed (capacity : Nat) : Machine :=
  Action.advance 0 (Machine.new { heapCapacity := capacity } .empty) (.allocList #[.int32 5])

/-- A host gets to the machine. -/
theorem attainable_oneListed (capacity : Nat) :
    Attainable { heapCapacity := capacity } .empty (oneListed capacity) := by
  unfold oneListed Action.advance
  exact .act (.allocList #[.int32 5]) 0 .new rfl

end ManagedCode
