import ManagedCode.Proofs.Value.Integers
import ManagedCode.Value.Conversion

/-!
# Integer conversions

A conversion of an integer to an integer target reads a number off the source and gives the integer
that stands for it, in the bits of the target and read as the target is. If these bits cannot hold
the number, a checked conversion faults and an unchecked one keeps its low bits.
-/

namespace ManagedCode

/-! ## Targets -/

namespace ConversionTarget

/-- How an integer target is read, and its number of bits. -/
def integer? : ConversionTarget → Option (Reading × Nat)
  | .i1 => some (.signed, 8)
  | .i2 => some (.signed, 16)
  | .i4 => some (.signed, 32)
  | .i8 => some (.signed, 64)
  | .u1 => some (.unsigned, 8)
  | .u2 => some (.unsigned, 16)
  | .u4 => some (.unsigned, 32)
  | .u8 => some (.unsigned, 64)
  | .r4 | .r8 => none

/-- The width of the integers on the evaluation stack that hold numbers of so many bits. -/
def stackWidth (bits : Nat) : Nat := if bits ≤ 32 then 32 else 64

/-- Integers on the stack have 32 or 64 bits. -/
theorem stackWidth_cases (bits : Nat) : stackWidth bits = 32 ∨ stackWidth bits = 64 := by
  unfold stackWidth
  split
  · exact .inl rfl
  · exact .inr rfl

variable {target : ConversionTarget} {reading : Reading} {bits : Nat}

/-- An integer target fits into the width that it has on the stack. -/
theorem bits_le_stackWidth (h : target.integer? = some (reading, bits)) :
    0 < bits ∧ bits ≤ stackWidth bits := by
  cases target <;> cases h <;> decide

/-- The range of an integer target is that of its bits under its reading. -/
theorem range_eq (h : target.integer? = some (reading, bits)) :
    target.range = reading.range bits := by
  cases target <;> cases h <;> rfl

/-- The target takes the low bits of a number as it reads them. -/
theorem ofInt_eq (h : target.integer? = some (reading, bits)) (n : Int) :
    target.ofInt n = (Integer.ofInt (stackWidth bits) (reading.residue bits n)).value := by
  have hword : Integer.ofInt 32 (reading.residue 32 n) = Integer.ofInt 32 n :=
    Integer.ofInt_residue (.inl rfl) (Nat.le_refl _) reading n
  have hlong : Integer.ofInt 64 (reading.residue 64 n) = Integer.ofInt 64 n :=
    Integer.ofInt_residue (.inr rfl) (Nat.le_refl _) reading n
  cases target with
  | i1 =>
    cases h
    refine congrArg Value.int32 ?_
    rw [← Int32.ofInt_int8ToInt, Int8.toInt_ofInt]
    rfl
  | i2 =>
    cases h
    refine congrArg Value.int32 ?_
    rw [← Int32.ofInt_int16ToInt, Int16.toInt_ofInt]
    rfl
  | u1 | u2 =>
    cases h
    rfl
  | i4 | u4 =>
    cases h
    exact (congrArg Integer.value hword).symm
  | i8 | u8 =>
    cases h
    exact (congrArg Integer.value hlong).symm
  | r4 | r8 => cases h

end ConversionTarget

/-! ## Conversions -/

namespace Conversion

open ConversionTarget

/-- How the source is read. -/
def sourceReading (c : Conversion) : Reading := if c.unsignedSource then .unsigned else .signed

variable {c : Conversion} {reading : Reading} {bits : Nat}

/-- The number that a conversion reads off a word. -/
theorem source_eq {w : Nat} (word : BitVec w) :
    (if c.unsignedSource then (word.toNat : Int) else word.toInt) =
      c.sourceReading.residue w word.toInt := by
  rw [Reading.residue_toInt, sourceReading]
  split <;> rfl

/-- A conversion to an integer target does not give a floating-point number. -/
theorem toFloat_eq_false (h : c.target.integer? = some (reading, bits)) : c.toFloat = false := by
  obtain ⟨target, checked, unsignedSource⟩ := c
  cases target <;> cases h <;> rfl

/-- An integer conversion in terms of the numbers that the source and the result stand for. -/
theorem convert_eq (h : c.target.integer? = some (reading, bits)) (a : Integer) :
    Value.convert c a.value =
      let n := c.sourceReading.residue a.width a.toInt
      if c.checked && !(reading.range bits).contains n then .error (.overflow "conv.ovf")
      else .ok (Integer.ofInt (stackWidth bits) (reading.residue bits n)).value := by
  have hint : ¬ c.toFloat = true := Bool.eq_false_iff.mp (toFloat_eq_false h)
  have hread : Value.convert c a.value =
      c.onInt (c.sourceReading.residue a.width a.toInt) := by
    cases a with
    | int32 word =>
      rw [Integer.value, Value.convert, if_neg hint]
      exact congrArg c.onInt (source_eq word.toBitVec)
    | int64 word =>
      rw [Integer.value, Value.convert, if_neg hint]
      exact congrArg c.onInt (source_eq word.toBitVec)
  rw [hread, onInt, range_eq h, ofInt_eq h]

/-- Converting without a check keeps the low bits. -/
theorem convert_of_unchecked (h : c.target.integer? = some (reading, bits))
    (hunchecked : c.checked = false) (a : Integer) :
    Value.convert c a.value =
      .ok (Integer.ofInt (stackWidth bits)
        (reading.residue bits (c.sourceReading.residue a.width a.toInt))).value := by
  refine (convert_eq h a).trans (if_neg ?_)
  rw [hunchecked, Bool.false_and]
  exact Bool.false_ne_true

/-- With a signed source these are the low bits of the number that the source stands for. -/
theorem convert_plain {target : ConversionTarget} (h : target.integer? = some (reading, bits))
    (a : Integer) :
    Value.convert (.plain target) a.value =
      .ok (Integer.ofInt (stackWidth bits) (reading.residue bits a.toInt)).value := by
  rw [convert_of_unchecked (c := .plain target) h rfl, sourceReading, plain,
    if_neg Bool.false_ne_true, a.residue_toInt]

/-- Whether a target of the width of a stack integer is signed makes no difference then. -/
theorem convert_plain_stackWidth {target : ConversionTarget}
    (h : target.integer? = some (reading, bits)) (hb : stackWidth bits = bits)
    (a : Integer) : Value.convert (.plain target) a.value = .ok (Integer.ofInt bits a.toInt).value := by
  have hcases : bits = 32 ∨ bits = 64 := hb ▸ stackWidth_cases bits
  rw [convert_plain h, hb, Integer.ofInt_residue hcases (Nat.le_refl bits)]

/-- A number that the bits of the target can hold is what the conversion gives, checked or not. -/
theorem convert_of_contains (h : c.target.integer? = some (reading, bits)) {a : Integer} {n : Int}
    (hn : c.sourceReading.residue a.width a.toInt = n)
    (hc : (reading.range bits).contains n = true) :
    Value.convert c a.value = .ok (Integer.ofInt (stackWidth bits) n).value := by
  have hself : reading.residue bits n = n :=
    (Reading.residue_eq_self_iff (bits_le_stackWidth h).1).mpr hc
  subst hn
  refine (convert_eq h a).trans ((if_neg ?_).trans ?_)
  · rw [hc, Bool.not_true, Bool.and_false]
    exact Bool.false_ne_true
  · rw [hself]

/-- Read without a sign, 32 bits stand for a number that the unsigned 64-bit target can hold. -/
theorem convert_strict_un (n : Int) :
    Value.convert (.strict .u8 true) (Integer.ofInt 32 n).value =
      .ok (Integer.ofInt 64 (n % 2 ^ 32)).value := by
  have hread : Reading.unsigned.residue 32 (Integer.ofInt 32 n).toInt = n % 2 ^ 32 := by
    rw [Integer.toInt_ofInt (.inl rfl)]
    exact Reading.residue_residue (Nat.le_refl 32)
  refine convert_of_contains (c := .strict .u8 true) rfl hread ?_
  rw [Reading.contains_unsigned_iff]
  omega

end Conversion

open Conversion ConversionTarget in
/-- Integer conversions. The number that is read off the source is what a checked conversion gives
if the bits of the target can hold it, read back as the target reads them, and otherwise the
conversion overflows. An unchecked conversion gives the low bits of the number, extended as the
target reads them, and converting the result again changes nothing. -/
theorem integer_conversion {c : Conversion} {reading : Reading} {bits : Nat}
    (h : c.target.integer? = some (reading, bits)) (a : Integer) :
    let n := c.sourceReading.residue a.width a.toInt
    let width := stackWidth bits
    (c.checked = true →
      Integer.Answers reading bits width
        (if (reading.range bits).contains n then .ok n else .error (.overflow "conv.ovf"))
        (Value.convert c a.value)) ∧
    (c.checked = false →
      ∃ r : Integer, Value.convert c a.value = .ok r.value ∧ r.width = width ∧
        r.toInt = Reading.signed.residue width (reading.residue bits n) ∧
        Value.convert (.plain c.target) r.value = .ok r.value) := by
  intro n width
  have hw : width = 32 ∨ width = 64 := stackWidth_cases bits
  obtain ⟨hpos, hle⟩ := bits_le_stackWidth h
  let r := Integer.ofInt width (reading.residue bits n)
  have hr : r.toInt = Reading.signed.residue width (reading.residue bits n) :=
    Integer.toInt_ofInt hw _
  have hback : reading.residue bits r.toInt = reading.residue bits n := by
    rw [hr, Reading.residue_residue hle, Reading.residue_residue (Nat.le_refl bits)]
  refine ⟨fun hchecked => ?_, fun hchecked => ?_⟩
  · cases hc : (reading.range bits).contains n with
    | true =>
      have hself : reading.residue bits n = n := (Reading.residue_eq_self_iff hpos).mpr hc
      refine ⟨Integer.ofInt width n, convert_of_contains h rfl hc, Integer.width_ofInt hw _, ?_⟩
      rw [Integer.toInt_ofInt hw, Reading.residue_residue hle, hself]
    | false =>
      rw [if_neg Bool.false_ne_true]
      refine (convert_eq h a).trans (if_pos ?_)
      rw [hc, hchecked]
      rfl
  · refine ⟨r, convert_of_unchecked h hchecked a, Integer.width_ofInt hw _, hr, ?_⟩
    rw [convert_plain h, hback]

/-- The number that 32 set bits stand for without a sign passes the check of an unsigned target,
which keeps the bits; a signed target extends the sign of the low byte. -/
theorem integer_conversion_set_bits :
    ConversionTarget.integer? .u4 = some (.unsigned, 32) ∧ (Conversion.strict .u4 true).checked ∧
      Integer.Answers .unsigned 32 32 (.ok 4294967295)
        (Value.convert (.strict .u4 true) (Integer.int32 (-1)).value) ∧
      ConversionTarget.integer? .i1 = some (.signed, 8) ∧
      (Conversion.plain .i1).checked = false ∧
      ∃ r : Integer, Value.convert (.plain .i1) (Integer.int64 200).value = .ok r.value ∧
        r.width = 32 ∧ r.toInt = -56 ∧ Value.convert (.plain .i1) r.value = .ok r.value := by
  obtain ⟨hstrict, -⟩ := integer_conversion (c := .strict .u4 true) rfl (.int32 (-1))
  obtain ⟨-, hplain⟩ := integer_conversion (c := .plain .i1) rfl (.int64 200)
  exact ⟨rfl, rfl, hstrict rfl, rfl, rfl, hplain rfl⟩

end ManagedCode
