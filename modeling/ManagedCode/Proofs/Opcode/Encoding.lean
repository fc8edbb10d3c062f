import Mathlib.Algebra.Group.Nat.Defs
import ManagedCode.Opcode.Encoding

/-!
# Opcode bytes and names stand for one opcode

The bytes of an opcode determine it: no two opcodes of the same length share a byte, and no one-byte
opcode is the byte that announces a second one. Looking the bytes up therefore undoes `encode`. No
two opcodes share a listing name either.
-/

namespace ManagedCode.Opcode

/-- The list of all opcodes misses none. -/
theorem mem_all (op : Opcode) : op ∈ all := by
  have h : all[op.ctorIdx]? = some op := by cases op <;> rfl
  exact List.mem_of_getElem? h

/-! ## Distinct keys -/

/-- Whether the opcodes have distinct keys, none of which is a bit of `seen`. Keeping the keys as
bits makes this one pass over the list. -/
def separates (key : Opcode → Nat) : (seen : Nat) → List Opcode → Bool
  | _, [] => true
  | seen, op :: ops => !seen.testBit (key op) && separates key (seen ||| 1 <<< key op) ops

private theorem testBit_of_separates {key : Opcode → Nat} {seen : Nat} {ops : List Opcode}
    (h : separates key seen ops = true) {op : Opcode} (hop : op ∈ ops) :
    seen.testBit (key op) = false := by
  induction ops generalizing seen with
  | nil => cases hop
  | cons first ops ih =>
    simp only [separates, Bool.and_eq_true, Bool.not_eq_true'] at h
    rcases List.mem_cons.mp hop with rfl | hop
    · exact h.1
    · have hrest := ih h.2 hop
      rw [Nat.testBit_or, Bool.or_eq_false_iff] at hrest
      exact hrest.1

/-- Separated opcodes with the same key are the same. -/
theorem eq_of_separates {key : Opcode → Nat} {seen : Nat} {ops : List Opcode}
    (h : separates key seen ops = true) {a b : Opcode} (ha : a ∈ ops) (hb : b ∈ ops)
    (hk : key a = key b) : a = b := by
  induction ops generalizing seen with
  | nil => cases ha
  | cons first ops ih =>
    simp only [separates, Bool.and_eq_true] at h
    -- The key of the first opcode is set for all that follow.
    have hfirst : ∀ op ∈ ops, key op ≠ key first := by
      intro op hop he
      have hbit := testBit_of_separates h.2 hop
      rw [he, Nat.testBit_or, Nat.one_shiftLeft, Nat.testBit_two_pow_self, Bool.or_true] at hbit
      cases hbit
    rcases List.mem_cons.mp ha with rfl | hrest
    · rcases List.mem_cons.mp hb with rfl | hb
      · rfl
      · exact absurd hk.symm (hfirst b hb)
    · rcases List.mem_cons.mp hb with rfl | hb
      · exact absurd hk (hfirst a hrest)
      · exact ih h.2 hrest hb

/-! ## Bytes -/

/-- The low byte, with those of two-byte opcodes kept apart. -/
def byteKey (op : Opcode) : Nat :=
  if op.isExtended then 256 + op.lowByte.toNat else op.lowByte.toNat

private theorem separates_byteKey : separates byteKey (2 ^ extensionByte.toNat) all = true := by
  decide +kernel

/-- Opcodes of the same length with the same low byte are the same. -/
theorem eq_of_lowByte_eq {a b : Opcode} (he : a.isExtended = b.isExtended)
    (hb : a.lowByte = b.lowByte) : a = b := by
  refine eq_of_separates separates_byteKey (mem_all a) (mem_all b) ?_
  rw [byteKey, byteKey, he, hb]

/-- The byte that announces a two-byte opcode is no opcode itself. -/
theorem lowByte_ne_extensionByte {op : Opcode} (he : op.isExtended = false) :
    op.lowByte ≠ extensionByte := by
  intro hb
  have hbit := testBit_of_separates separates_byteKey (mem_all op)
  rw [byteKey, he, hb] at hbit
  simp at hbit

/-- A byte is an opcode exactly if that is its whole encoding. -/
theorem ofByte?_eq_some_iff {byte : UInt8} {op : Opcode} :
    ofByte? byte = some op ↔ op.isExtended = false ∧ op.lowByte = byte := by
  constructor
  · intro h
    simpa using List.find?_some h
  · rintro ⟨he, rfl⟩
    cases hf : ofByte? op.lowByte with
    | none => simpa [he] using List.find?_eq_none.mp hf op (mem_all op)
    | some found =>
      have hfound : found.isExtended = false ∧ found.lowByte = op.lowByte := by
        simpa using List.find?_some hf
      rw [eq_of_lowByte_eq (hfound.1.trans he.symm) hfound.2]

/-- A byte behind the prefix is an opcode exactly if that is extended by it. -/
theorem ofSecondByte?_eq_some_iff {byte : UInt8} {op : Opcode} :
    ofSecondByte? byte = some op ↔ op.isExtended = true ∧ op.lowByte = byte := by
  constructor
  · intro h
    simpa using List.find?_some h
  · rintro ⟨he, rfl⟩
    cases hf : ofSecondByte? op.lowByte with
    | none => simpa [he] using List.find?_eq_none.mp hf op (mem_all op)
    | some found =>
      have hfound : found.isExtended = true ∧ found.lowByte = op.lowByte := by
        simpa using List.find?_some hf
      rw [eq_of_lowByte_eq (hfound.1.trans he.symm) hfound.2]

/-- An opcode is written in as many bytes as its size says. -/
theorem length_encode (op : Opcode) : op.encode.length = op.size := by
  unfold encode size
  split <;> rfl

/-- An opcode takes up at least one byte. -/
theorem size_pos (op : Opcode) : 0 < op.size := by
  unfold size
  split <;> decide

/-! ## Names -/

/-- Whether a listing name may have the character. -/
def isNameChar (c : Char) : Bool := c.isAlphanum || c == '.'

/-- The bytes of the listing name as characters. -/
def spelling (op : Opcode) : List Char :=
  op.mnemonic.toByteArray.data.toList.map fun byte => Char.ofNat byte.toNat

private theorem spelling_all : ∀ op ∈ all, (String.ofList op.spelling = op.mnemonic ∧
    op.spelling ≠ []) ∧ op.spelling.all isNameChar = true := by
  decide +kernel

private theorem toList_mnemonic (op : Opcode) : op.mnemonic.toList = op.spelling := by
  rw [← (spelling_all op (mem_all op)).1.1, String.toList_ofList]

/-- The characters of an opcode name are those of names. -/
theorem isNameChar_of_mem {op : Opcode} {c : Char} (h : c ∈ op.mnemonic.toList) :
    isNameChar c = true := by
  rw [toList_mnemonic] at h
  exact List.all_eq_true.mp (spelling_all op (mem_all op)).2 c h

/-- Every opcode has a name. -/
theorem mnemonic_ne_nil (op : Opcode) : op.mnemonic.toList ≠ [] := by
  rw [toList_mnemonic]
  exact (spelling_all op (mem_all op)).1.2

/-- A number that tells the listing names apart. -/
def nameKey (op : Opcode) : Nat :=
  op.mnemonic.toByteArray.data.toList.foldl (fun n byte => n * 256 + byte.toNat) 0 % 3683

private theorem separates_nameKey : separates nameKey 0 all = true := by
  decide +kernel

/-- The listing name of an opcode is that of no other. -/
theorem ofMnemonic?_mnemonic (op : Opcode) : ofMnemonic? op.mnemonic = some op := by
  cases hf : ofMnemonic? op.mnemonic with
  | none => simpa using List.find?_eq_none.mp hf op (mem_all op)
  | some found =>
    have hfound : found.mnemonic = op.mnemonic := by simpa using List.find?_some hf
    have hkey : found.nameKey = op.nameKey := by rw [nameKey, nameKey, hfound]
    rw [eq_of_separates separates_nameKey (mem_all found) (mem_all op) hkey]

end ManagedCode.Opcode
