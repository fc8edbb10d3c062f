import ManagedCode.Library.Types
import ManagedCode.Proofs.Execution.Operations
import ManagedCode.Proofs.Value.Comparison
import ManagedCode.Proofs.Value.Conversion

/-!
# Two instructions in a row

A conversion to fewer bits followed by one to more, and a comparison followed by a test. The second
instruction sees of the first one only the integer that it left, which does not tell whether it was
read with a sign.
-/

namespace ManagedCode

/-! ## Narrowing, then widening -/

namespace Exec

/-- Carried out one after the other, instructions of two opcodes that need no operand replace an
integer by the 64-bit integer that stands for a number. -/
def Widens (first second : Opcode) (m : Machine) (a : Integer) (n : Int) : Prop :=
  ∀ inst next : Instruction, inst.opcode = first → next.opcode = second →
    ∃ (between : Integer) (r : Int64),
      step inst (m.pushed a.value) = .ok .next (m.pushed between.value) ∧
        step next (m.pushed between.value) = .ok .next (m.pushed (.int64 r)) ∧ r.toInt = n

section

variable {m : Machine} {first second : Opcode} {a between : Integer} {n : Int}

/-- Two conversions that give a number which 64 bits hold widen to it. -/
theorem Widens.of_convert (hm : m.calls.frames ≠ []) {c d : Conversion}
    (hfirst : first.plainTask? = some (.convert c))
    (hsecond : second.plainTask? = some (.convert d))
    (hc : Value.convert c a.value = .ok between.value)
    (hd : Value.convert d between.value = .ok (Integer.ofInt 64 n).value)
    (hn : Reading.signed.residue 64 n = n) : Widens first second m a n := by
  rintro inst next rfl rfl
  exact ⟨between, Int64.ofInt n, step_convert hm (task_of_plainTask hfirst) hc,
    step_convert hm (task_of_plainTask hsecond) hd, (Integer.toInt_ofInt (.inr rfl) n).trans hn⟩

/-- An integer is widened to one number only. -/
theorem Widens.unique (hm : m.calls.frames ≠ []) {n' : Int} (h : Widens first second m a n)
    (h' : Widens first second m a n') : n = n' := by
  obtain ⟨between, r, hfirst, hsecond, rfl⟩ := h ⟨first, 0, none⟩ ⟨second, 0, none⟩ rfl rfl
  obtain ⟨between', r', hfirst', hsecond', rfl⟩ := h' ⟨first, 0, none⟩ ⟨second, 0, none⟩ rfl rfl
  have hbetween : m.pushed between.value = m.pushed between'.value :=
    (EStateM.Result.ok.inj (hfirst.symm.trans hfirst')).2
  rw [hbetween] at hsecond
  have hresult : Value.int64 r = Value.int64 r' :=
    pushed_inj hm (EStateM.Result.ok.inj (hsecond.symm.trans hsecond')).2
  rw [Value.int64.inj hresult]

end

end Exec

open Exec in
/-- A number that was narrowed to 32 bits and is then widened to 64 keeps the sign that the top one
of the 32 bits gives it, also where both conversions are unsigned: only a conversion that reads its
source without a sign takes the top bit as part of the number. -/
theorem narrowed_then_widened {m : Machine} (hm : m.calls.frames ≠ []) (a : Integer) :
    Widens .convI4 .convI8 m a (a.toInt.bmod (2 ^ 32)) ∧
      Widens .convU4 .convU8 m a (a.toInt.bmod (2 ^ 32)) ∧
      Widens .convU4 .convOvfU8Un m a (a.toInt % 2 ^ 32) ∧
      (Widens .convU4 .convU8 m a (a.toInt % 2 ^ 32) ↔ a.toInt % 2 ^ 32 < 2 ^ 31) := by
  have hi4 : Value.convert (.plain .i4) a.value = .ok (Integer.ofInt 32 a.toInt).value :=
    Conversion.convert_plain_stackWidth rfl rfl a
  have hu4 : Value.convert (.plain .u4) a.value = .ok (Integer.ofInt 32 a.toInt).value :=
    Conversion.convert_plain_stackWidth rfl rfl a
  have hbetween : (Integer.ofInt 32 a.toInt).toInt = a.toInt.bmod (2 ^ 32) :=
    Integer.toInt_ofInt (.inl rfl) a.toInt
  have hi8 : Value.convert (.plain .i8) (Integer.ofInt 32 a.toInt).value =
      .ok (Integer.ofInt 64 (a.toInt.bmod (2 ^ 32))).value :=
    hbetween ▸ Conversion.convert_plain_stackWidth rfl rfl _
  have hu8 : Value.convert (.plain .u8) (Integer.ofInt 32 a.toInt).value =
      .ok (Integer.ofInt 64 (a.toInt.bmod (2 ^ 32))).value :=
    hbetween ▸ Conversion.convert_plain_stackWidth rfl rfl _
  have hu8Un := Conversion.convert_strict_un a.toInt
  have hsigned : Widens .convI4 .convI8 m a (a.toInt.bmod (2 ^ 32)) :=
    .of_convert hm rfl rfl hi4 hi8 (Reading.signed.residue_narrow a.toInt)
  have hunsigned : Widens .convU4 .convU8 m a (a.toInt.bmod (2 ^ 32)) :=
    .of_convert hm rfl rfl hu4 hu8 (Reading.signed.residue_narrow a.toInt)
  have hchecked : Widens .convU4 .convOvfU8Un m a (a.toInt % 2 ^ 32) :=
    .of_convert hm rfl rfl hu4 hu8Un (Reading.unsigned.residue_narrow a.toInt)
  refine ⟨hsigned, hunsigned, hchecked, fun h => ?_, fun h => ?_⟩
  · have hsame := hunsigned.unique hm h
    rw [Int.bmod_def] at hsame
    omega
  · have hsame : a.toInt.bmod (2 ^ 32) = a.toInt % 2 ^ 32 := by
      rw [Int.bmod_def]
      omega
    exact hsame ▸ hunsigned

/-- A machine in which a method has just started. -/
def Machine.started : Machine :=
  { Machine.new {} .empty with calls := ⟨[⟨none, ⟨0⟩, [], #[], []⟩], 25, none⟩ }

open Exec in
/-- The low 32 bits of three times `2 ^ 31` are one set bit and zeros. -/
theorem narrowed_then_widened_top_bit :
    Machine.started.calls.frames ≠ [] ∧
      Widens .convI4 .convI8 .started (.int64 6442450944) (-2147483648) ∧
      Widens .convU4 .convU8 .started (.int64 6442450944) (-2147483648) ∧
      Widens .convU4 .convOvfU8Un .started (.int64 6442450944) 2147483648 ∧
      ¬ Widens .convU4 .convU8 .started (.int64 6442450944) 2147483648 := by
  have hm : Machine.started.calls.frames ≠ [] := nofun
  obtain ⟨hsigned, hunsigned, hchecked, hiff⟩ := narrowed_then_widened hm (.int64 6442450944)
  exact ⟨hm, hsigned, hunsigned, hchecked, fun h => absurd (hiff.mp h) (by decide)⟩

open Exec in
/-- The unsigned conversions leave of 32 set bits an integer that is not the number in 32 bits. -/
theorem narrowed_unsigned_sign_extended :
    Widens .convU4 .convU8 .started (.int32 (-1)) (-1) ∧
      ¬ Widens .convU4 .convU8 .started (.int32 (-1)) ((-1) % 2 ^ 32) := by
  have hm : Machine.started.calls.frames ≠ [] := nofun
  have hnarrow : Value.convert (.plain .u4) (Integer.int32 (-1)).value =
      .ok (Integer.int32 (-1)).value := rfl
  have hwiden : Value.convert (.plain .u8) (Integer.int32 (-1)).value =
      .ok (Integer.ofInt 64 (-1)).value := rfl
  have hkept : Widens .convU4 .convU8 .started (.int32 (-1)) (-1) :=
    .of_convert hm rfl rfl hnarrow hwiden rfl
  exact ⟨hkept, fun h => absurd (hkept.unique hm h) (by decide)⟩

/-! ## Comparing, then branching -/

/-- The comparison after which a branch if false goes where a compare-and-branch goes. -/
def Opcode.complement? : Opcode → Option Opcode
  | .bge | .bgeS => some .clt
  | .bgeUn | .bgeUnS => some .cltUn
  | .ble | .bleS => some .cgt
  | .bleUn | .bleUnS => some .cgtUn
  | .bneUn | .bneUnS => some .ceq
  | _ => none

/-- The two test for opposites. -/
theorem Opcode.complement_eq_some {op comparison : Opcode}
    (h : op.complement? = some comparison) :
    ∃ test : CompareOp, comparison.compareOp? = some test ∧
      comparison.plainTask? = some (.compare test) ∧
      op.branchTest? = some (.compares test.negated) := by
  cases op <;> cases h
  case bge | bgeS => exact ⟨.lt, rfl, rfl, rfl⟩
  case bgeUn | bgeUnS => exact ⟨.ltUn, rfl, rfl, rfl⟩
  case ble | bleS => exact ⟨.gt, rfl, rfl, rfl⟩
  case bleUn | bleUnS => exact ⟨.gtUn, rfl, rfl, rfl⟩
  case bneUn | bneUnS => exact ⟨.eq, rfl, rfl, rfl⟩

namespace Exec

/-- On two operands, a compare-and-branch is taken if a comparison of them does not hold, goes where
the comparison and a test of its truth value go, and leaves the same machine. -/
def BranchesLike (m : Machine) (a b : Value) (target : UInt32)
    (branch comparison test : Instruction) : Prop :=
  ∃ (op : CompareOp) (taken : Bool),
    comparison.opcode.compareOp? = some op ∧ Value.compare op a b = .ok (!taken) ∧
    step branch ((m.pushed a).pushed b) = .ok (if taken then .jump target else .next) m ∧
    step comparison ((m.pushed a).pushed b) = .ok .next (m.pushed (.ofBool (!taken))) ∧
    step test (m.pushed (.ofBool (!taken))) = .ok (if taken then .jump target else .next) m

/-- A branch does what the complementary comparison and a branch on falsehood do. -/
theorem branchesLike_of_complement {m : Machine} (hm : m.calls.frames ≠ [])
    {branch comparison test : Instruction} {target : UInt32}
    (hbranch : branch.opcode.complement? = some comparison.opcode)
    (htest : test.opcode = .brfalse ∨ test.opcode = .brfalseS)
    (htarget : branch.operand = some (.target target))
    (hsame : test.operand = some (.target target)) (a b : Integer) :
    BranchesLike m a.value b.value target branch comparison test := by
  obtain ⟨op, hop, hcomparison, hnegated⟩ := Opcode.complement_eq_some hbranch
  obtain ⟨taken, htaken, hfails⟩ := compare_negated op a b
  have hisFalse : test.opcode.branchTest? = some .isFalse := by
    rcases htest with h | h <;> rw [h] <;> rfl
  have hfalse : branches .isFalse (m.pushed (.ofBool (!taken))) = .ok taken m := by
    rw [branches_isFalse hm]
    cases taken <;> rfl
  exact ⟨op, taken, hop, hfails,
    step_branch (task_of_branchTest hnegated htarget) (branches_compares hm htaken),
    step_compare hm (task_of_plainTask hcomparison) hfails,
    step_branch (task_of_branchTest hisFalse hsame) hfalse⟩

end Exec

open Exec in
/-- Comparing integers of any widths compares the numbers that they stand for, with a sign or
without, so that each family of comparisons is one total order; and a branch that compares goes
where the opposite comparison and a branch if false go. -/
theorem integer_comparison_order :
    (∀ (op : CompareOp) (a b : Integer),
      Value.compare op a.value b.value = .ok (op.relates (op.reads a) (op.reads b))) ∧
    (∀ reading, Integer.TotallyOrdered reading) ∧
    ∀ (m : Machine) (branch comparison test : Instruction) (target : UInt32),
      m.calls.frames ≠ [] → branch.opcode.complement? = some comparison.opcode →
      test.opcode = .brfalse ∨ test.opcode = .brfalseS →
      branch.operand = some (.target target) → test.operand = some (.target target) →
      ∀ a b : Integer, BranchesLike m a.value b.value target branch comparison test :=
  ⟨compare_eq_relates, Integer.totallyOrdered, fun _ _ _ _ _ hm => branchesLike_of_complement hm⟩

open Exec in
/-- Without a sign, set bits alone stand for the greatest number, which is not less than one. -/
theorem integer_comparison_order_unsigned :
    Value.compare .ltUn (Integer.int32 (-1)).value (Integer.int64 1).value = .ok false ∧
      BranchesLike .started (.int32 (-1)) (.int64 1) 8 ⟨.bgeUn, 2, some (.target 8)⟩
        ⟨.cltUn, 2, none⟩ ⟨.brfalseS, 4, some (.target 8)⟩ ∧
      Exec.step ⟨.bgeUn, 2, some (.target 8)⟩
        ((Machine.started.pushed (.int32 (-1))).pushed (.int64 1)) = .ok (.jump 8) .started := by
  obtain ⟨hcompare, -, hbranch⟩ := integer_comparison_order
  exact ⟨hcompare .ltUn (.int32 (-1)) (.int64 1),
    hbranch .started ⟨.bgeUn, 2, some (.target 8)⟩ ⟨.cltUn, 2, none⟩
      ⟨.brfalseS, 4, some (.target 8)⟩ 8 nofun rfl (.inr rfl) rfl rfl (.int32 (-1)) (.int64 1), rfl⟩

end ManagedCode
