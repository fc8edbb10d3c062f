import Mathlib.Algebra.Group.Int.Defs
import Mathlib.Algebra.Group.Nat.Defs
import ManagedCode.IntRange
import ManagedCode.Value.Basic

/-!
# Integers as whole numbers

An integer on the evaluation stack is a word of 32 or of 64 bits, and a word can be read with a sign
or without. The low bits of a whole number, read either way, are its residue; a number is its own
residue exactly if the bits can hold it. What an instruction does with words is stated through the
numbers that they stand for.
-/

namespace ManagedCode

/-! ## Readings -/

/-- How the number that some bits stand for is read off them. -/
inductive Reading where
  /-- In two's complement. -/
  | signed
  /-- Without a sign. -/
  | unsigned
  deriving DecidableEq, Repr

namespace Reading

/-- The number that the low bits of a number stand for. -/
def residue (reading : Reading) (bits : Nat) (n : Int) : Int :=
  match reading with
  | .signed => n.bmod (2 ^ bits)
  | .unsigned => n % (2 ^ bits : Nat)

/-- The numbers that some bits can stand for. -/
def range (reading : Reading) (bits : Nat) : IntRange :=
  match reading with
  | .signed => .signed bits
  | .unsigned => .unsigned bits

/-- The number that a word stands for. -/
def ofWord {w : Nat} (reading : Reading) (word : BitVec w) : Int :=
  match reading with
  | .signed => word.toInt
  | .unsigned => word.toNat

variable {reading other : Reading} {bits : Nat} {n : Int}

/-- The low bits of a number are also the low bits of what more bits of it stand for. -/
theorem residue_residue {more : Nat} (h : bits ≤ more) :
    reading.residue bits (other.residue more n) = reading.residue bits n := by
  have hd : 2 ^ bits ∣ 2 ^ more := Nat.pow_dvd_pow 2 h
  have hmod : other.residue more n % (2 ^ bits : Nat) = n % (2 ^ bits : Nat) := by
    have hz : ((2 ^ bits : Nat) : Int) ∣ (2 ^ more : Nat) := Int.natCast_dvd_natCast.mpr hd
    cases other with
    | signed => rw [residue, ← Int.emod_emod_of_dvd _ hz, Int.bmod_emod, Int.emod_emod_of_dvd _ hz]
    | unsigned => exact Int.emod_emod_of_dvd _ hz
  cases reading with
  | unsigned => exact hmod
  | signed => rw [residue, residue, ← Int.emod_bmod, hmod, Int.emod_bmod]

/-- Whether two numbers have the same low bits does not depend on how these are read. -/
theorem residue_inj {m : Int} :
    reading.residue bits m = reading.residue bits n ↔
      other.residue bits m = other.residue bits n := by
  have hread : ∀ k, reading.residue bits (other.residue bits k) = reading.residue bits k :=
    fun _ => residue_residue (Nat.le_refl bits)
  have hother : ∀ k, other.residue bits (reading.residue bits k) = other.residue bits k :=
    fun _ => residue_residue (Nat.le_refl bits)
  constructor
  · intro h
    rw [← hother, h, hother]
  · intro h
    rw [← hread, h, hread]

/-- A number is in the signed range if its bits hold it with its sign. -/
theorem contains_signed_iff :
    (signed.range bits).contains n = true ↔
      -(2 ^ (bits - 1) : Nat) ≤ n ∧ n < (2 ^ (bits - 1) : Nat) := by
  rw [IntRange.contains_iff]
  exact and_congr_right fun _ => Int.le_sub_one_iff

/-- A number is in the unsigned range if its bits hold it. -/
theorem contains_unsigned_iff :
    (unsigned.range bits).contains n = true ↔ 0 ≤ n ∧ n < (2 ^ bits : Nat) := by
  rw [IntRange.contains_iff]
  exact and_congr_right fun _ => Int.le_sub_one_iff

/-- A number is its own residue exactly if the bits can hold it. -/
theorem residue_eq_self_iff (hb : 0 < bits) :
    reading.residue bits n = n ↔ (reading.range bits).contains n = true := by
  have hpow : 2 ^ bits = 2 * 2 ^ (bits - 1) := by
    rw [← Nat.pow_succ', Nat.succ_eq_add_one, Nat.sub_add_cancel hb]
  have hpos : 0 < 2 ^ (bits - 1) := Nat.two_pow_pos _
  cases reading with
  | signed =>
    rw [contains_signed_iff, residue, hpow]
    constructor
    · intro h
      have hlow := Int.le_bmod (x := n) (m := 2 * 2 ^ (bits - 1)) (by omega)
      have hhigh := Int.bmod_lt (x := n) (m := 2 * 2 ^ (bits - 1)) (by omega)
      omega
    · rintro ⟨hlow, hhigh⟩
      exact Int.bmod_eq_of_le_mul_two (by omega) (by omega)
  | unsigned =>
    rw [contains_unsigned_iff, residue]
    constructor
    · intro h
      rw [← h]
      exact ⟨Int.emod_nonneg n (by omega), Int.emod_lt_of_pos n (by omega)⟩
    · rintro ⟨hlow, hhigh⟩
      exact Int.emod_eq_of_lt hlow hhigh

/-- A residue is in range. -/
theorem contains_residue (hb : 0 < bits) :
    (reading.range bits).contains (reading.residue bits n) = true :=
  (residue_eq_self_iff hb).mp (residue_residue (Nat.le_refl bits))

/-- The number in 32 bits has a place among the signed numbers of 64 bits, however it is read. -/
theorem residue_narrow (reading : Reading) (n : Int) :
    signed.residue 64 (reading.residue 32 n) = reading.residue 32 n := by
  rw [residue_eq_self_iff (by decide), contains_signed_iff]
  have hnarrow : (reading.range 32).contains (reading.residue 32 n) = true :=
    contains_residue (by decide)
  cases reading with
  | signed =>
    rw [contains_signed_iff] at hnarrow
    omega
  | unsigned =>
    rw [contains_unsigned_iff] at hnarrow
    omega

/-- The bits of a word, read otherwise. -/
theorem residue_toInt {w : Nat} (word : BitVec w) :
    reading.residue w word.toInt = reading.ofWord word := by
  cases reading with
  | signed => exact word.toInt_bmod_cancel
  | unsigned =>
    have hlt : (word.toNat : Int) < (2 ^ w : Nat) := Int.ofNat_lt.mpr word.isLt
    rw [residue, ofWord, BitVec.toInt_eq_toNat_bmod, Int.bmod_emod,
      Int.emod_eq_of_lt (Int.natCast_nonneg _) hlt]

end Reading

/-! ## Integers -/

/-- An integer on the evaluation stack. -/
inductive Integer where
  | int32 (word : Int32)
  | int64 (word : Int64)
  deriving DecidableEq, Repr

namespace Integer

/-- The integer as a value. -/
def value : Integer → Value
  | .int32 word => .int32 word
  | .int64 word => .int64 word

/-- The number of its bits. -/
def width : Integer → Nat
  | .int32 _ => 32
  | .int64 _ => 64

/-- The number that it stands for, read with its sign. -/
def toInt : Integer → Int
  | .int32 word => word.toInt
  | .int64 word => word.toInt

/-- The integer with the low bits of a number. -/
def ofInt (width : Nat) (n : Int) : Integer :=
  if width = 32 then .int32 (Int32.ofInt n) else .int64 (Int64.ofInt n)

/-- An integer of a width is made of that width. -/
theorem width_ofInt {width : Nat} (hw : width = 32 ∨ width = 64) (n : Int) :
    (ofInt width n).width = width := by
  rcases hw with rfl | rfl <;> rfl

/-- The integer that is made of a number has its signed residue. -/
theorem toInt_ofInt {width : Nat} (hw : width = 32 ∨ width = 64) (n : Int) :
    (ofInt width n).toInt = Reading.signed.residue width n := by
  rcases hw with rfl | rfl
  · exact Int32.toInt_ofInt
  · exact Int64.toInt_ofInt

/-- Only the low bits of a number count. -/
theorem ofInt_residue {width bits : Nat} (hw : width = 32 ∨ width = 64) (h : width ≤ bits)
    (reading : Reading) (n : Int) : ofInt width (reading.residue bits n) = ofInt width n := by
  have hsame : (ofInt width (reading.residue bits n)).toInt = (ofInt width n).toInt := by
    rw [toInt_ofInt hw, toInt_ofInt hw, Reading.residue_residue h]
  rcases hw with rfl | rfl
  · exact congrArg int32 (Int32.toInt_inj.mp hsame)
  · exact congrArg int64 (Int64.toInt_inj.mp hsame)

/-- Read with its sign an integer stands for the same number in all its bits. -/
theorem residue_toInt (a : Integer) : Reading.signed.residue a.width a.toInt = a.toInt := by
  cases a with
  | int32 word => exact word.toBitVec.toInt_bmod_cancel
  | int64 word => exact word.toBitVec.toInt_bmod_cancel

/-- Widening with the sign keeps the number. -/
theorem residue_toInt_long (a : Integer) : Reading.signed.residue 64 a.toInt = a.toInt := by
  cases a with
  | int32 word =>
    rw [← (int32 word).residue_toInt]
    exact Reading.residue_narrow .signed _
  | int64 word => exact (int64 word).residue_toInt

/-- An answer is the fault of a computation with numbers, or an integer of some width whose low
bits stand for the result. -/
def Answers (reading : Reading) (bits width : Nat) :
    (computed : Except Fault Int) → (answer : Except Fault Value) → Prop
  | .error fault, answer => answer = .error fault
  | .ok n, answer =>
    ∃ r : Integer, answer = .ok r.value ∧ r.width = width ∧ reading.residue bits r.toInt = n

/-- Words that stand for the results of a computation are answers. -/
theorem answers_map {w : Nat} {reading : Reading} (make : BitVec w → Integer)
    (hwidth : ∀ word, (make word).width = w) (hmake : ∀ word, (make word).toInt = word.toInt)
    (words : Except Fault (BitVec w)) :
    Answers reading w w (words.map reading.ofWord) (words.map fun word => (make word).value) := by
  cases words with
  | error fault => rfl
  | ok word => exact ⟨make word, rfl, hwidth word, by rw [hmake, Reading.residue_toInt]⟩

end Integer

end ManagedCode
