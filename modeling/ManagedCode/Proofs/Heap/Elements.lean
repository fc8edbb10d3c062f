import Mathlib.Data.List.Induction
import Mathlib.Logic.Basic
import ManagedCode.Heap.Object
import ManagedCode.Proofs.Instruction.Operands

/-!
# Elements of arrays

An array stores each value in the form of its element kind, if the kind has a form for it. Whatever
is stored at whatever indices, one attempt after another, the array keeps its kind and its length,
and reading it at an index gives the form of the last value that could be stored there, or the
initial value.
-/

namespace ManagedCode

/-! ## Forms of values -/

namespace ElementKind

/-- The kinds of values that can be stored. -/
def storableKinds : ElementKind → List String
  | .int32 | .int64 => ["int32", "int64"]
  | .float64 => ["int32", "float64"]
  | .char => ["int32"]
  | .any => ["int32", "int64", "float64", "reference", "null"]

/-- The value is of a kind that can be stored. -/
def Storable (kind : ElementKind) (value : Value) : Prop := value.kind ∈ kind.storableKinds

instance (kind : ElementKind) (value : Value) : Decidable (kind.Storable value) :=
  inferInstanceAs (Decidable (_ ∈ _))

/-- A value and the form in which it is stored. -/
inductive Stores : ElementKind → Value → Value → Prop
  | int32 (v : Int32) : Stores .int32 (.int32 v) (.int32 v)
  /-- Of a wide integer the low 32 bits are stored. -/
  | truncated {v : Int64} {w : Int32} (h : w.toInt = v.toInt.bmod (2 ^ 32)) :
      Stores .int32 (.int64 v) (.int32 w)
  | int64 (v : Int64) : Stores .int64 (.int64 v) (.int64 v)
  /-- A narrow integer is stored as the same number. -/
  | widened {v : Int32} {w : Int64} (h : w.toInt = v.toInt) : Stores .int64 (.int32 v) (.int64 w)
  | float64 (v : Float) : Stores .float64 (.float64 v) (.float64 v)
  | floating (v : Int32) : Stores .float64 (.int32 v) (.float64 v.toFloat)
  /-- The code point of a character is stored as it is. -/
  | char {v : Int32} (c : Char) (h : v.toUInt32 = c.val) : Stores .char (.int32 v) (.int32 v)
  /-- For any other number the replacement character is stored. -/
  | replaced {v : Int32} (h : ∀ c : Char, v.toUInt32 ≠ c.val) :
      Stores .char (.int32 v) (.int32 0xFFFD)
  | any (v : Value) : Stores .any v v

/-- A number that is a character stays that character. -/
theorem codePoint_of_char {v : Int32} {c : Char} (h : v.toUInt32 = c.val) : codePoint v = v := by
  apply if_pos
  rw [h]
  exact c.valid

/-- A number that is no character becomes the replacement character. -/
theorem codePoint_of_not_char {v : Int32} (h : ∀ c : Char, v.toUInt32 ≠ c.val) :
    codePoint v = 0xFFFD := by
  apply if_neg
  intro hvalid
  exact h ⟨v.toUInt32, hvalid⟩ rfl

/-- Storing coerces a value to its form. -/
theorem stores_iff {kind : ElementKind} {value stored : Value} :
    kind.Stores value stored ↔ kind.coerce? value = some stored := by
  constructor
  · intro h
    cases h with
    | int32 v => rfl
    | truncated h =>
      have hsame := Int32.toInt_inj.mp (h.trans (Int64.toInt_toInt32 _).symm)
      simp only [coerce?, hsame]
    | int64 v => rfl
    | widened h =>
      have hsame := Int64.toInt_inj.mp (h.trans (Int32.toInt_toInt64 _).symm)
      simp only [coerce?, hsame]
    | float64 v => rfl
    | floating v => rfl
    | char c h => simp only [coerce?, codePoint_of_char h]
    | replaced h => simp only [coerce?, codePoint_of_not_char h]
    | any v => rfl
  · intro h
    cases kind with
    | int32 =>
      cases value <;> cases h
      · exact .int32 _
      · exact .truncated (Int64.toInt_toInt32 _)
    | int64 =>
      cases value <;> cases h
      · exact .widened (Int32.toInt_toInt64 _)
      · exact .int64 _
    | float64 =>
      cases value <;> cases h
      · exact .floating _
      · exact .float64 _
    | char =>
      cases value <;> cases h
      rename_i v
      by_cases hc : ∃ c : Char, v.toUInt32 = c.val
      · obtain ⟨c, hc⟩ := hc
        rw [codePoint_of_char hc]
        exact .char c hc
      · rw [not_exists] at hc
        rw [codePoint_of_not_char hc]
        exact .replaced hc
    | any =>
      cases h
      exact .any _

/-- A value has one form. -/
theorem Stores.unique {kind : ElementKind} {value stored stored' : Value}
    (h : kind.Stores value stored) (h' : kind.Stores value stored') : stored = stored' :=
  Option.some.inj ((stores_iff.mp h).symm.trans (stores_iff.mp h'))

/-- Exactly the values of the storable kinds have a form. -/
theorem storable_iff {kind : ElementKind} {value : Value} :
    kind.Storable value ↔ ∃ stored, kind.Stores value stored := by
  simp only [stores_iff, ← Option.isSome_iff_exists]
  cases kind <;> cases value <;> simp [Storable, storableKinds, Value.kind, coerce?]

/-- What attempts to store leave at an index: the form of the last value there that can be stored,
or the initial value. -/
inductive Leaves (kind : ElementKind) (index : Int) : List (Int × Value) → Value → Prop
  | initial {attempts : List (Int × Value)}
      (h : ∀ attempt ∈ attempts, attempt.1 = index → ¬ kind.Storable attempt.2) :
      Leaves kind index attempts kind.zero
  | last {before after : List (Int × Value)} {value stored : Value}
      (hs : kind.Stores value stored)
      (h : ∀ attempt ∈ after, attempt.1 = index → ¬ kind.Storable attempt.2) :
      Leaves kind index (before ++ (index, value) :: after) stored

section Leaving

variable {kind : ElementKind} {index : Int} {attempts : List (Int × Value)} {attempt : Int × Value}
  {v : Value}

/-- No attempts leave the initial value. -/
theorem leaves_nil_iff : kind.Leaves index [] v ↔ v = kind.zero := by
  constructor
  · intro h
    generalize hnil : ([] : List (Int × Value)) = attempts at h
    cases h with
    | initial => rfl
    | @last before => cases before <;> cases hnil
  · rintro rfl
    exact .initial (by simp)

/-- An attempt at another index, or with a value that cannot be stored, is of no effect. -/
theorem Leaves.append (h : kind.Leaves index attempts v)
    (ha : attempt.1 = index → ¬ kind.Storable attempt.2) :
    kind.Leaves index (attempts ++ [attempt]) v := by
  have hmore {others : List (Int × Value)}
      (h : ∀ other ∈ others, other.1 = index → ¬ kind.Storable other.2) :
      ∀ other ∈ others ++ [attempt], other.1 = index → ¬ kind.Storable other.2 := by
    intro other hm
    rcases List.mem_append.mp hm with hm | hm
    · exact h other hm
    · rw [List.mem_singleton.mp hm]
      exact ha
  cases h with
  | initial h => exact .initial (hmore h)
  | last hs h =>
    rw [List.append_assoc, List.cons_append]
    exact .last hs (hmore h)

/-- The last attempt was of effect, or it was of none and the earlier ones leave the value. -/
theorem Leaves.append_cases (h : kind.Leaves index (attempts ++ [attempt]) v) :
    (attempt.1 = index ∧ kind.Stores attempt.2 v) ∨
      ((attempt.1 = index → ¬ kind.Storable attempt.2) ∧ kind.Leaves index attempts v) := by
  generalize hall : attempts ++ [attempt] = all at h
  cases h with
  | initial h =>
    subst hall
    right
    constructor
    · exact h attempt (by simp)
    · exact .initial fun other hm => h other (List.mem_append_left _ hm)
  | @last before after value stored hs h =>
    rcases List.eq_nil_or_concat after with rfl | ⟨after, latest, rfl⟩
    · obtain ⟨-, hsame⟩ := List.append_inj' hall rfl
      obtain rfl := List.singleton_inj.mp hsame
      exact .inl ⟨rfl, hs⟩
    · rw [List.concat_eq_append, ← List.cons_append, ← List.append_assoc] at hall
      obtain ⟨rfl, hsame⟩ := List.append_inj' hall rfl
      obtain rfl := List.singleton_inj.mp hsame
      right
      constructor
      · exact h attempt (by simp)
      · exact .last hs fun other hm => h other (by simp [hm])

end Leaving

end ElementKind

/-! ## Storing and reading -/

namespace Elements

variable {elements : Elements} {index : Int} {value v : Value}

/-- Storing an element does not change the kind. -/
@[simp] theorem kind_put (elements : Elements) (position : Nat) (stored : Value) :
    (elements.put position stored).kind = elements.kind := rfl

/-- Storing an element does not change the length. -/
@[simp] theorem size_put (elements : Elements) (position : Nat) (stored : Value) :
    (elements.put position stored).size = elements.size := by
  simp [put, size]

/-- The index is that of an element. -/
def InRange (elements : Elements) (index : Int) : Prop := 0 ≤ index ∧ index < elements.size

/-- An index in range is its own position, and no other index has one. -/
theorem position_eq_ok_iff {position : Nat} :
    elements.position index = .ok position ↔ elements.InRange index ∧ index.toNat = position := by
  unfold Elements.position InRange
  by_cases hin : 0 ≤ index ∧ index < elements.size
  · simp [hin]
  · simp [hin]

/-- The position of an index in range is below the length. -/
theorem InRange.toNat_lt (h : elements.InRange index) : index.toNat < elements.values.size := by
  have hlow := h.1
  have hhigh : index < elements.values.size := h.2
  omega

/-- An element is read exactly at an index that is in range. -/
theorem get_eq_ok_iff :
    elements.get index = .ok v ↔
      elements.InRange index ∧ elements.values.getD index.toNat .null = v := by
  simp only [get, bind_eq_ok_iff, position_eq_ok_iff, and_assoc, exists_and_left,
    exists_eq_left', pure, Except.pure, Except.ok.injEq]

/-- Storing succeeds exactly at an index in range with a value that has a form, which replaces the
element there. -/
theorem set_eq_ok_iff {changed : Elements} :
    elements.set index value = .ok changed ↔
      elements.InRange index ∧ ∃ stored,
        elements.kind.Stores value stored ∧ elements.put index.toNat stored = changed := by
  simp only [set, plan, bind_eq_ok_iff, position_eq_ok_iff, ElementKind.stores_iff]
  cases elements.kind.coerce? value <;>
    simp [pure, Except.pure, throw, throwThe, MonadExceptOf.throw]

/-- The elements after an attempt to store a value at an index, which may fail. -/
def attempt (elements : Elements) (attempt : Int × Value) : Elements :=
  match elements.set attempt.1 attempt.2 with
  | .ok changed => changed
  | .error _ => elements

/-- The elements after one attempt after another. -/
def attemptAll (elements : Elements) (attempts : List (Int × Value)) : Elements :=
  attempts.foldl attempt elements

/-- An attempt fails and changes nothing, or puts a form of the value into its place. -/
theorem attempt_cases (elements : Elements) (index : Int) (value : Value) :
    (¬ (elements.InRange index ∧ elements.kind.Storable value) ∧
        elements.attempt (index, value) = elements) ∨
      (elements.InRange index ∧ ∃ stored, elements.kind.Stores value stored ∧
        elements.attempt (index, value) = elements.put index.toNat stored) := by
  unfold attempt
  cases hset : elements.set index value with
  | ok changed =>
    obtain ⟨hin, stored, hstores, rfl⟩ := set_eq_ok_iff.mp hset
    exact .inr ⟨hin, stored, hstores, rfl⟩
  | error fault =>
    refine .inl ⟨?_, rfl⟩
    rintro ⟨hin, hstorable⟩
    obtain ⟨stored, hstores⟩ := ElementKind.storable_iff.mp hstorable
    have hok := set_eq_ok_iff.mpr ⟨hin, stored, hstores, rfl⟩
    rw [hset] at hok
    cases hok

/-- An attempt to store does not change the kind. -/
@[simp] theorem kind_attempt (elements : Elements) (attempt : Int × Value) :
    (elements.attempt attempt).kind = elements.kind := by
  obtain ⟨index, value⟩ := attempt
  rcases elements.attempt_cases index value with ⟨-, h⟩ | ⟨-, stored, -, h⟩
  · rw [h]
  · rw [h, kind_put]

/-- An attempt to store does not change the length. -/
@[simp] theorem size_attempt (elements : Elements) (attempt : Int × Value) :
    (elements.attempt attempt).size = elements.size := by
  obtain ⟨index, value⟩ := attempt
  rcases elements.attempt_cases index value with ⟨-, h⟩ | ⟨-, stored, -, h⟩
  · rw [h]
  · rw [h, size_put]

/-- The last attempt is made on what the others left. -/
theorem attemptAll_append (elements : Elements) (attempts : List (Int × Value))
    (attempt : Int × Value) :
    elements.attemptAll (attempts ++ [attempt]) =
      (elements.attemptAll attempts).attempt attempt := by
  rw [attemptAll, List.foldl_append]
  rfl

/-- No attempts change the kind. -/
theorem kind_attemptAll (elements : Elements) (attempts : List (Int × Value)) :
    (elements.attemptAll attempts).kind = elements.kind := by
  induction attempts using List.reverseRecOn with
  | nil => rfl
  | append_singleton attempts attempt ih => rw [attemptAll_append, kind_attempt, ih]

/-- No attempts change the length. -/
theorem size_attemptAll (elements : Elements) (attempts : List (Int × Value)) :
    (elements.attemptAll attempts).size = elements.size := by
  induction attempts using List.reverseRecOn with
  | nil => rfl
  | append_singleton attempts attempt ih => rw [attemptAll_append, size_attempt, ih]

/-- After an attempt an element is the form of the value that was stored there, or as it was. -/
theorem getD_attempt_cases (h : elements.InRange index) (attempt : Int × Value) :
    ((attempt.1 = index ∧ elements.kind.Storable attempt.2) ∧
        elements.kind.Stores attempt.2
          ((elements.attempt attempt).values.getD index.toNat .null)) ∨
      ((attempt.1 = index → ¬ elements.kind.Storable attempt.2) ∧
        (elements.attempt attempt).values.getD index.toNat .null =
          elements.values.getD index.toNat .null) := by
  obtain ⟨other, value⟩ := attempt
  rcases elements.attempt_cases other value with ⟨hfails, hsame⟩ | ⟨hin, stored, hs, hput⟩
  · right
    constructor
    · rintro rfl hstorable
      exact hfails ⟨h, hstorable⟩
    · rw [hsame]
  · have hlt := h.toNat_lt
    rw [hput, put, Array.getD_eq_getD_getElem?, Array.getElem?_setIfInBounds]
    by_cases he : other = index
    · left
      rw [he, if_pos rfl, if_pos hlt]
      exact ⟨⟨rfl, ElementKind.storable_iff.mpr ⟨stored, hs⟩⟩, hs⟩
    · right
      have hne : other.toNat ≠ index.toNat := by
        have hlow := h.1
        have hlow' := hin.1
        omega
      rw [if_neg hne, Array.getD_eq_getD_getElem?]
      exact ⟨fun heq => absurd heq he, rfl⟩

/-- Reading at every index in turn lists the values. -/
theorem map_get_range (elements : Elements) :
    (List.range elements.size).map (fun i : Nat => elements.get i) =
      elements.values.toList.map .ok := by
  apply List.ext_getElem
  · simp [size]
  · intro i hi hi'
    have hlt : i < elements.values.size := by simpa [size] using hi
    simp only [List.getElem_map, List.getElem_range, Array.getElem_toList]
    apply get_eq_ok_iff.mpr
    constructor
    · exact ⟨Int.natCast_nonneg i, Int.ofNat_lt.mpr hlt⟩
    · rw [Int.toNat_natCast, Array.getD_eq_getD_getElem?, Array.getElem?_eq_getElem hlt,
        Option.getD_some]

/-! ## New arrays -/

/-- A new array is of the kind that was asked for. -/
@[simp] theorem kind_zeros (kind : ElementKind) (n : Nat) : (zeros kind n).kind = kind := rfl

/-- A new array has the length that was asked for. -/
@[simp] theorem size_zeros (kind : ElementKind) (n : Nat) : (zeros kind n).size = n := by
  simp [zeros, size]

/-- Whatever is attempted on a new array, an element is what the attempts leave there. -/
theorem getD_attemptAll_zeros_eq_iff {kind : ElementKind} {n : Nat} {attempts : List (Int × Value)}
    (h : (zeros kind n).InRange index) :
    ((zeros kind n).attemptAll attempts).values.getD index.toNat .null = v ↔
      kind.Leaves index attempts v := by
  induction attempts using List.reverseRecOn generalizing v with
  | nil =>
    have hlt := h.toNat_lt
    have hread : (zeros kind n).values.getD index.toNat .null = kind.zero := by
      simp_all [zeros]
    rw [attemptAll, List.foldl_nil, hread, ElementKind.leaves_nil_iff, eq_comm]
  | append_singleton attempts attempt ih =>
    have hin : ((zeros kind n).attemptAll attempts).InRange index := by
      rwa [InRange, size_attemptAll]
    have hcases := getD_attempt_cases hin attempt
    rw [kind_attemptAll, kind_zeros] at hcases
    rw [attemptAll_append]
    rcases hcases with ⟨⟨hindex, hstorable⟩, hs⟩ | ⟨hfails, hsame⟩
    · constructor
      · rintro rfl
        obtain ⟨other, value⟩ := attempt
        cases hindex
        exact .last hs (by simp)
      · intro hleaves
        rcases hleaves.append_cases with ⟨-, hs'⟩ | ⟨hfails, -⟩
        · exact hs.unique hs'
        · exact absurd hstorable (hfails hindex)
    · rw [hsame, ih]
      constructor
      · intro hleaves
        exact hleaves.append hfails
      · intro hleaves
        rcases hleaves.append_cases with ⟨hindex, hs⟩ | ⟨-, hleaves⟩
        · exact absurd (ElementKind.storable_iff.mpr ⟨v, hs⟩) (hfails hindex)
        · exact hleaves

/-- A surrogate is stored as the replacement character; nothing comes of the other two attempts. -/
example : ((zeros .char 2).attemptAll
    [(0, .int32 65), (1, .int32 0xD800), (0, .null), (-1, .int32 66)]).values =
      #[.int32 65, .int32 0xFFFD] := by
  decide

/-- The storage of an array of any length, for elements of any type, after any attempts to store
values: the kind and the length are those it began with; a value can be stored exactly at an index
in range if it is of a storable kind; a failure changes nothing; an element reads as the form of the
last value that could be stored there or as the initial value; and the values are those that are
read at the indices in order. -/
theorem storage_attemptAll_zeros (type : TypeRef) (n : Nat) (attempts : List (Int × Value)) :
    let kind := ElementKind.ofType type
    let elements := (zeros kind n).attemptAll attempts
    (elements.kind = kind ∧ elements.size = n) ∧
    (∀ index value, (∃ changed, elements.set index value = .ok changed) ↔
      (0 ≤ index ∧ index < n) ∧ kind.Storable value) ∧
    (∀ index value fault, elements.set index value = .error fault →
      elements.attempt (index, value) = elements) ∧
    (∀ index v, elements.get index = .ok v ↔
      (0 ≤ index ∧ index < n) ∧ kind.Leaves index attempts v) ∧
    (List.range n).map (fun i : Nat => elements.get i) = elements.values.toList.map .ok := by
  intro kind elements
  have hkind : elements.kind = kind := kind_attemptAll _ attempts
  have hsize : elements.size = n := (size_attemptAll _ attempts).trans (size_zeros kind n)
  have hrange {index : Int} : elements.InRange index ↔ 0 ≤ index ∧ index < n := by
    rw [InRange, hsize]
  refine ⟨⟨hkind, hsize⟩, ?_, ?_, ?_, ?_⟩
  · intro index value
    rw [ElementKind.storable_iff, ← hrange, ← hkind]
    constructor
    · rintro ⟨changed, hset⟩
      obtain ⟨hin, stored, hs, -⟩ := set_eq_ok_iff.mp hset
      exact ⟨hin, stored, hs⟩
    · rintro ⟨hin, stored, hs⟩
      exact ⟨_, set_eq_ok_iff.mpr ⟨hin, stored, hs, rfl⟩⟩
  · intro index value fault hset
    simp only [attempt, hset]
  · intro index v
    rw [get_eq_ok_iff, hrange]
    apply and_congr_right
    intro hin
    apply getD_attemptAll_zeros_eq_iff
    rwa [InRange, size_zeros]
  · rw [← hsize]
    exact elements.map_get_range

end Elements
end ManagedCode
