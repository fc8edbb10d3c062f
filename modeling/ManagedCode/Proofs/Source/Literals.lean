import Mathlib.Algebra.Group.Nat.Defs
import ManagedCode.Source.Literals

/-!
# The string table maps tokens to literals

The token that a literal gets stands for it in the map of the table, and goes on doing so while more
literals are met, as long as there are so few of them that their tokens fit into 32 bits.
-/

namespace ManagedCode

namespace TokenMap

variable {α : Type}

private theorem find?_insertEntry (token : Token) (value : α) (entries : List (Token × α))
    (wanted : Token) :
    (insertEntry token value entries).find? (fun entry => entry.1 == wanted) =
      if token = wanted then some (token, value)
      else entries.find? fun entry => entry.1 == wanted := by
  induction entries with
  | nil =>
    by_cases h : token = wanted
    · simp [insertEntry, h]
    · simp [insertEntry, h]
  | cons entry rest ih =>
    unfold insertEntry
    split
    · rw [List.find?_cons]
      by_cases h : token = wanted
      · simp [h]
      · simp [h, beq_false_of_ne h]
    · split
      · rename_i hs
        rw [List.find?_cons, List.find?_cons, hs]
        by_cases h : entry.1 = wanted
        · simp [h]
        · simp [h, beq_false_of_ne h]
      · rename_i hs
        rw [List.find?_cons, List.find?_cons, ih]
        by_cases h : token = wanted
        · have hne : entry.1 ≠ wanted := fun he => hs (h.trans he.symm)
          simp [h, beq_false_of_ne hne]
        · simp [h]

/-- An insertion changes the value at its token only. -/
theorem get?_insert (map : TokenMap α) (token : Token) (value : α) (wanted : Token) :
    (map.insert token value).get? wanted =
      if token = wanted then some value else map.get? wanted := by
  unfold get? insert
  rw [find?_insertEntry]
  split <;> rfl

private theorem get?_foldl_of_ne {entries : List (Token × α)} {token : Token}
    (h : ∀ entry ∈ entries, entry.1 ≠ token) (map : TokenMap α) :
    (entries.foldl (fun map entry => map.insert entry.1 entry.2) map).get? token =
      map.get? token := by
  induction entries generalizing map with
  | nil => rfl
  | cons entry entries ih =>
    rw [List.forall_mem_cons] at h
    rw [List.foldl_cons, ih h.2, get?_insert, if_neg h.1]

/-- The last entry of a token decides. -/
theorem get?_ofList_append {before after : List (Token × α)} {token : Token} {value : α}
    (h : ∀ entry ∈ after, entry.1 ≠ token) :
    (ofList (before ++ (token, value) :: after)).get? token = some value := by
  rw [ofList, List.foldl_append, List.foldl_cons, get?_foldl_of_ne h, get?_insert, if_pos rfl]

end TokenMap

namespace Source.Literals

/-- The tokens of the literals fit into 32 bits. -/
def Fits (literals : Literals) : Prop := firstToken + literals.texts.length ≤ 2 ^ 32

/-- Tokens of different places are different as long as they fit into 32 bits. -/
theorem tokenAt_injective {i j : Nat} (hi : firstToken + i < 2 ^ 32) (hj : firstToken + j < 2 ^ 32)
    (h : tokenAt i = tokenAt j) : i = j := by
  have hvalue := congrArg (fun token => token.value.toNat) h
  simp only [tokenAt, Nat.toUInt32_eq, UInt32.toNat_ofNat_of_lt' hi,
    UInt32.toNat_ofNat_of_lt' hj] at hvalue
  omega

/-- The token of a position stands for the literal there. -/
theorem get?_toMap {literals : Literals} (hf : literals.Fits) {i : Nat} {text : String}
    (hi : literals.texts[i]? = some text) : literals.toMap.get? (tokenAt i) = some text := by
  have hlt : i < literals.texts.length := (List.getElem?_eq_some_iff.mp hi).1
  unfold Fits at hf
  have hentry : ∀ (j : Nat) (entry : Token × String),
      (literals.texts.mapIdx fun position text => (tokenAt position, text))[j]? = some entry →
      j < literals.texts.length ∧ entry.1 = tokenAt j := by
    intro j entry hj
    rw [List.getElem?_mapIdx] at hj
    obtain ⟨found, hfound, rfl⟩ := Option.map_eq_some_iff.mp hj
    exact ⟨(List.getElem?_eq_some_iff.mp hfound).1, rfl⟩
  have hget : (literals.texts.mapIdx fun position text => (tokenAt position, text))[i]? =
      some (tokenAt i, text) := by
    rw [List.getElem?_mapIdx, hi]
    rfl
  unfold toMap
  generalize literals.texts.mapIdx (fun position text => (tokenAt position, text)) = entries
    at hentry hget
  obtain ⟨hi', hget⟩ := List.getElem?_eq_some_iff.mp hget
  rw [← List.take_append_drop i entries, List.drop_eq_getElem_cons hi', hget]
  refine TokenMap.get?_ofList_append fun entry hm => ?_
  obtain ⟨j, hj⟩ := List.mem_iff_getElem?.mp hm
  rw [List.getElem?_drop] at hj
  obtain ⟨hjlt, htoken⟩ := hentry _ entry hj
  rw [htoken]
  intro he
  have hsame := tokenAt_injective (by omega) (by omega) he
  omega

/-- The later table has all literals of the earlier one in their places. -/
def Extends (earlier later : Literals) : Prop :=
  ∀ (i : Nat) (text : String), earlier.texts[i]? = some text → later.texts[i]? = some text

/-- A table has its own literals. -/
theorem Extends.refl (literals : Literals) : Extends literals literals := fun _ _ h => h

/-- What two tables one after the other both keep is kept. -/
theorem Extends.trans {a b c : Literals} (hab : Extends a b) (hbc : Extends b c) : Extends a c :=
  fun i text h => hbc i text (hab i text h)

/-- A literal gets the token of its place in the new table, which is at most one literal longer. -/
theorem intern_spec (literals : Literals) (text : String) :
    ∃ i, (literals.intern text).1 = tokenAt i ∧
      (literals.intern text).2.texts[i]? = some text ∧
      Extends literals (literals.intern text).2 ∧
      (literals.intern text).2.texts.length ≤ literals.texts.length + 1 := by
  unfold intern
  split
  · rename_i position hp
    obtain ⟨hlt, hsame, _⟩ := List.findIdx?_eq_some_iff_getElem.mp hp
    refine ⟨position, rfl, ?_, .refl literals, Nat.le_succ _⟩
    rw [List.getElem?_eq_getElem hlt, eq_of_beq hsame]
  · refine ⟨literals.texts.length, rfl, by simp, ?_, by simp⟩
    intro i found hi
    have hlt := (List.getElem?_eq_some_iff.mp hi).1
    rw [List.getElem?_append_left hlt, hi]

end Source.Literals

end ManagedCode
