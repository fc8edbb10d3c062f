import Mathlib.Logic.Basic
import ManagedCode.Proofs.Value.Integers
import ManagedCode.Value.Arithmetic

/-!
# Exact arithmetic

A two-operand instruction on integers computes with whole numbers: it reads its operands, with a
sign or without, and its result is the word that reads as the exact number. Only addition,
subtraction, multiplication and the shift to the left keep the low bits of a number that the word
cannot hold; where anything else has no result, the instruction faults.
-/

namespace ManagedCode

namespace BinaryOp

/-! ## The numbers -/

/-- How an operation reads its operands and its result. -/
def reading : BinaryOp → Reading
  | .divUn | .remUn | .and | .or | .xor | .shrUn | .addOvfUn | .subOvfUn | .mulOvfUn => .unsigned
  | _ => .signed

/-- The result of a signed division, which has none for a zero divisor and for the least number by
minus one. -/
def quotient (width : Nat) (x y result : Int) : Except Fault Int :=
  if y = 0 then .error .divisionByZero
  else if x = -(2 ^ (width - 1) : Nat) ∧ y = -1 then .error (.overflow "div")
  else .ok result

/-- The result of an unsigned division, which has none for a zero divisor. -/
def quotientUn (y result : Int) : Except Fault Int :=
  if y = 0 then .error .divisionByZero else .ok result

/-- The exact result of an operation that refuses what a word cannot hold. -/
def represented (op : BinaryOp) (width : Nat) (result : Int) : Except Fault Int :=
  if (op.reading.range width).contains result then .ok result else .error (.overflow op.name)

/-- The number that the result of an operation on words stands for, or the fault. Division cuts off
towards zero; a shift to the right rounds down. -/
def exact (op : BinaryOp) (width : Nat) (x y : Int) : Except Fault Int :=
  match op with
  | .add => .ok (Reading.signed.residue width (x + y))
  | .sub => .ok (Reading.signed.residue width (x - y))
  | .mul => .ok (Reading.signed.residue width (x * y))
  | .div => quotient width x y (x.tdiv y)
  | .rem => quotient width x y (x.tmod y)
  | .divUn => quotientUn y (x / y)
  | .remUn => quotientUn y (x % y)
  | .and => .ok (x.toNat &&& y.toNat : Nat)
  | .or => .ok (x.toNat ||| y.toNat : Nat)
  | .xor => .ok (x.toNat ^^^ y.toNat : Nat)
  | .shl => .ok (Reading.signed.residue width (x * 2 ^ (y % width).toNat))
  | .shr | .shrUn => .ok (x / 2 ^ (y % width).toNat)
  | .addOvf | .addOvfUn => op.represented width (x + y)
  | .subOvf | .subOvfUn => op.represented width (x - y)
  | .mulOvf | .mulOvfUn => op.represented width (x * y)

/-! ## The words -/

section Words

variable {w : Nat} {a b result : BitVec w} {n : Int}

/-- A signed division overflows for the least number by minus one only. -/
theorem sdivOverflow_iff (hw : 0 < w) :
    BitVec.sdivOverflow a b = true ↔ a.toInt = -(2 ^ (w - 1) : Nat) ∧ b.toInt = -1 := by
  have hleast : (BitVec.intMin w).toInt = -(2 ^ (w - 1) : Nat) := by
    rw [BitVec.toInt_intMin_of_pos hw, Int.natCast_pow]
    rfl
  have hminus : (BitVec.allOnes w).toInt = -1 := by rw [BitVec.toInt_allOnes, if_pos hw]
  rw [BitVec.sdivOverflow_eq, ← hleast, ← hminus, BitVec.toInt_inj, BitVec.toInt_inj]
  simp [hw]

/-- A signed division that does not overflow cuts off towards zero. -/
theorem toInt_sdiv_of_not_sdivOverflow (hw : 0 < w) (ho : ¬ BitVec.sdivOverflow a b = true) :
    (a.sdiv b).toInt = a.toInt.tdiv b.toInt := by
  refine BitVec.toInt_sdiv_of_ne_or_ne a b (not_and_or.mp fun hboth => ho ?_)
  rw [BitVec.sdivOverflow_eq, hboth.1, hboth.2, BitVec.neg_one_eq_allOnes]
  simp [hw]

/-- A signed division answers with the exact quotient, or says why there is none. -/
theorem map_divided (hw : 0 < w)
    (hr : ¬ BitVec.sdivOverflow a b = true → result.toInt = n) :
    (divided a b result).map Reading.signed.ofWord = quotient w a.toInt b.toInt n := by
  have hzero : b = 0#w ↔ b.toInt = 0 := by rw [← BitVec.toInt_inj, BitVec.toInt_zero]
  unfold divided quotient
  by_cases hb : b = 0
  · rw [if_pos hb, if_pos (hzero.mp hb)]
    rfl
  rw [if_neg hb, if_neg (hzero.not.mp hb)]
  by_cases ho : BitVec.sdivOverflow a b = true
  · rw [if_pos ho, if_pos ((sdivOverflow_iff hw).mp ho)]
    rfl
  rw [if_neg ho, if_neg ((sdivOverflow_iff hw).not.mp ho)]
  exact congrArg Except.ok (hr ho)

/-- An unsigned division answers with the exact quotient, or says that it is by zero. -/
theorem map_dividedUn (hr : (result.toNat : Int) = n) :
    (dividedUn b result).map Reading.unsigned.ofWord = quotientUn b.toNat n := by
  have hzero : b = 0#w ↔ (b.toNat : Int) = 0 := by
    rw [← BitVec.toNat_inj, BitVec.toNat_zero, Int.natCast_eq_zero]
  unfold dividedUn quotientUn
  by_cases hb : b = 0
  · rw [if_pos hb, if_pos (hzero.mp hb)]
    rfl
  rw [if_neg hb, if_neg (hzero.not.mp hb)]
  exact congrArg Except.ok hr

/-- A checked operation answers with the exact number if that is in range. -/
theorem map_checked {op : BinaryOp} {overflows : Bool}
    (ho : overflows = false ↔ (op.reading.range w).contains n = true)
    (hr : ¬ overflows = true → op.reading.ofWord result = n) :
    (checked op overflows result).map op.reading.ofWord = op.represented w n := by
  unfold checked represented
  cases overflows with
  | false =>
    rw [if_neg Bool.false_ne_true, if_pos (ho.mp rfl)]
    exact congrArg Except.ok (hr Bool.false_ne_true)
  | true =>
    rw [if_pos rfl, if_neg fun hc => Bool.false_ne_true (ho.mpr hc).symm]
    rfl

/-- A shift count may be read with a sign or without: the width divides the power by which the two
readings differ. -/
theorem toNat_emod_toInt (hd : w ∣ 2 ^ w) : (b.toInt % w).toNat = b.toNat % w := by
  have hz : (w : Int) ∣ (2 ^ w : Nat) := Int.natCast_dvd_natCast.mpr hd
  rw [BitVec.toInt_eq_toNat_bmod, ← Int.emod_emod_of_dvd _ hz, Int.bmod_emod,
    Int.emod_emod_of_dvd _ hz, ← Int.natCast_emod, Int.toNat_natCast]

/-- A shift to the left multiplies by a power of two, as far as the bits hold it. -/
theorem toInt_shiftLeft_count (hd : w ∣ 2 ^ w) :
    (a <<< (b.toNat % w)).toInt =
      Reading.signed.residue w (a.toInt * 2 ^ (b.toInt % w).toNat) := by
  rw [toNat_emod_toInt hd, Reading.residue, BitVec.toInt_shiftLeft, Nat.shiftLeft_eq,
    BitVec.toInt_eq_toNat_bmod a, Int.bmod_mul_bmod, Int.natCast_mul, Int.natCast_pow]
  rfl

/-- A signed shift to the right divides by a power of two and rounds down. -/
theorem toInt_sshiftRight_count (hd : w ∣ 2 ^ w) :
    (a.sshiftRight (b.toNat % w)).toInt = a.toInt / 2 ^ (b.toInt % w).toNat := by
  rw [toNat_emod_toInt hd, BitVec.toInt_sshiftRight, Int.shiftRight_eq_div_pow, Int.natCast_pow]
  rfl

/-- An unsigned shift to the right divides the number that is read without its sign. -/
theorem toNat_ushiftRight_count :
    ((a >>> (b.toNat % w)).toNat : Int) = a.toNat / 2 ^ ((b.toNat : Int) % w).toNat := by
  rw [← Int.natCast_emod, Int.toNat_natCast, BitVec.toNat_ushiftRight, Nat.shiftRight_eq_div_pow,
    Int.natCast_ediv, Int.natCast_pow]
  rfl

/-! An overflow flag is down exactly if the word can hold the exact number. -/

/-- A number overflows as a signed one exactly if it is out of range. -/
theorem signedOverflow_iff {n : Int} :
    (decide (n ≥ 2 ^ (w - 1)) || decide (n < -2 ^ (w - 1))) = false ↔
      (Reading.signed.range w).contains n = true := by
  simp only [Reading.contains_signed_iff, Bool.or_eq_false_iff, decide_eq_false_iff_not,
    Int.natCast_pow, Int.cast_ofNat_Int]
  omega

/-- A number overflows as an unsigned one exactly if it is out of range. -/
theorem unsignedOverflow_iff {n : Nat} :
    decide (n ≥ 2 ^ w) = false ↔ (Reading.unsigned.range w).contains n = true := by
  rw [Reading.contains_unsigned_iff, Int.ofNat_lt, and_iff_right (Int.natCast_nonneg _),
    decide_eq_false_iff_not, Nat.not_le]

/-- An unsigned subtraction overflows exactly if the difference is out of range. -/
theorem usubOverflow_iff : BitVec.usubOverflow a b = false ↔
    (Reading.unsigned.range w).contains (a.toNat - b.toNat) = true := by
  have hlt : (a.toNat : Int) < (2 ^ w : Nat) := Int.ofNat_lt.mpr a.isLt
  rw [Reading.contains_unsigned_iff, BitVec.usubOverflow, decide_eq_false_iff_not]
  omega

/-- An operation on words computes the exact number. -/
theorem map_onWords (hw : 0 < w) (hd : w ∣ 2 ^ w) (op : BinaryOp) (a b : BitVec w) :
    (op.onWords a b).map op.reading.ofWord =
      op.exact w (op.reading.ofWord a) (op.reading.ofWord b) := by
  cases op with
  | add => exact congrArg Except.ok (BitVec.toInt_add a b)
  | sub => exact congrArg Except.ok BitVec.toInt_sub
  | mul => exact congrArg Except.ok (BitVec.toInt_mul a b)
  | div => exact map_divided hw (toInt_sdiv_of_not_sdivOverflow hw)
  | rem => exact map_divided hw fun _ => BitVec.toInt_srem a b
  | divUn => exact map_dividedUn (congrArg Int.ofNat BitVec.toNat_udiv)
  | remUn => exact map_dividedUn (congrArg Int.ofNat BitVec.toNat_umod)
  | and => exact congrArg (Except.ok ∘ Int.ofNat) (BitVec.toNat_and a b)
  | or => exact congrArg (Except.ok ∘ Int.ofNat) (BitVec.toNat_or a b)
  | xor => exact congrArg (Except.ok ∘ Int.ofNat) (BitVec.toNat_xor a b)
  | shl => exact congrArg Except.ok (toInt_shiftLeft_count hd)
  | shr => exact congrArg Except.ok (toInt_sshiftRight_count hd)
  | shrUn => exact congrArg Except.ok toNat_ushiftRight_count
  | addOvf => exact map_checked signedOverflow_iff BitVec.toInt_add_of_not_saddOverflow
  | subOvf => exact map_checked signedOverflow_iff BitVec.toInt_sub_of_not_ssubOverflow
  | mulOvf => exact map_checked signedOverflow_iff BitVec.toInt_mul_of_not_smulOverflow
  | addOvfUn =>
    refine map_checked unsignedOverflow_iff fun ho => ?_
    exact congrArg Int.ofNat (BitVec.toNat_add_of_not_uaddOverflow ho)
  | mulOvfUn =>
    refine map_checked unsignedOverflow_iff fun ho => ?_
    exact congrArg Int.ofNat (BitVec.toNat_mul_of_not_umulOverflow ho)
  | subOvfUn =>
    refine map_checked usubOverflow_iff fun ho => ?_
    have hle : b.toNat ≤ a.toNat := by simpa [BitVec.usubOverflow] using ho
    exact (congrArg Int.ofNat (BitVec.toNat_sub_of_not_usubOverflow ho)).trans (Int.ofNat_sub hle)

end Words

/-! ## The integers -/

/-- Every operation on words of 32 bits answers with the exact result. -/
theorem answers_onInt32 (op : BinaryOp) (a b : Int32) :
    Integer.Answers op.reading 32 32
      (op.exact 32 (op.reading.residue 32 a.toInt) (op.reading.residue 32 b.toInt))
      (op.onInt32 a b) := by
  have hexact := map_onWords (by decide) (by decide) op a.toBitVec b.toBitVec
  rw [← Reading.residue_toInt, ← Reading.residue_toInt] at hexact
  rw [← a.toInt_toBitVec, ← b.toInt_toBitVec, ← hexact]
  exact Integer.answers_map (fun word => .int32 (Int32.ofBitVec word)) (fun _ => rfl)
    Int32.toInt_ofBitVec _

/-- Every operation on words of 64 bits answers with the exact result. -/
theorem answers_onInt64 (op : BinaryOp) (a b : Int64) :
    Integer.Answers op.reading 64 64
      (op.exact 64 (op.reading.residue 64 a.toInt) (op.reading.residue 64 b.toInt))
      (op.onInt64 a b) := by
  have hexact := map_onWords (by decide) (by decide) op a.toBitVec b.toBitVec
  rw [← Reading.residue_toInt, ← Reading.residue_toInt] at hexact
  rw [← a.toInt_toBitVec, ← b.toInt_toBitVec, ← hexact]
  exact Integer.answers_map (fun word => .int64 (Int64.ofBitVec word)) (fun _ => rfl)
    Int64.toInt_ofBitVec _

end BinaryOp

/-- Integer arithmetic is exact. Two 32-bit integers are computed with in 32 bits, and two of which
one has 64 bits in 64 bits, after the other one is widened with its sign: the answer is the integer
of that width that stands for the exact result, or the fault where there is none. A shift takes no
64-bit count. -/
theorem integer_arithmetic_exact (op : BinaryOp) (a b : Integer) :
    if op.isShift = true ∧ b.width = 64 then
      Value.binary op a.value b.value = .error (Value.operandMismatch op a.value b.value)
    else
      let width := max a.width b.width
      Integer.Answers op.reading width width
        (op.exact width (op.reading.residue width a.toInt) (op.reading.residue width b.toInt))
        (Value.binary op a.value b.value) := by
  cases b with
  | int32 b =>
    have hwidth : (Integer.int32 b).width ≠ 64 := by simp [Integer.width]
    rw [if_neg fun h => hwidth h.2]
    cases a with
    | int32 a => exact op.answers_onInt32 a b
    | int64 a =>
      have hexact := op.answers_onInt64 a b.toInt64
      rw [Int32.toInt_toInt64] at hexact
      exact hexact
  | int64 b =>
    by_cases hshift : op.isShift = true
    · rw [if_pos ⟨hshift, rfl⟩]
      cases a with
      | int32 a => exact if_pos hshift
      | int64 a => exact if_pos hshift
    · rw [if_neg fun h => hshift h.1]
      cases a with
      | int32 a =>
        have hexact := op.answers_onInt64 a.toInt64 b
        rw [Int32.toInt_toInt64] at hexact
        rw [Integer.value, Integer.value, Value.binary, if_neg hshift]
        exact hexact
      | int64 a =>
        rw [Integer.value, Integer.value, Value.binary, if_neg hshift]
        exact op.answers_onInt64 a b

/-- Also the remainder of the least number by minus one is a fault. -/
example : Value.binary .rem (.int64 Int64.minValue) (.int32 (-1)) = .error (.overflow "div") := rfl

end ManagedCode
