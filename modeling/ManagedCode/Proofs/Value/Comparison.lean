import ManagedCode.Proofs.Value.Integers
import ManagedCode.Value.Comparison

/-!
# Integers in order

Comparing two integers, of whatever widths, compares the numbers that they stand for in 64 bits,
with a sign or without. So the comparisons of each of the two families belong to one total order of
all integers.
-/

namespace ManagedCode

/-! ## Comparing numbers -/

namespace CompareOp

/-- How a comparison reads its operands. -/
def reading (op : CompareOp) : Reading := if op.isUnsigned then .unsigned else .signed

/-- The number that a comparison reads off an integer: the one that it stands for, or, without a
sign, the one of the 64 bits to which it is widened. -/
def reads (op : CompareOp) (a : Integer) : Int :=
  if op.isUnsigned then a.toInt % 2 ^ 64 else a.toInt

/-- A comparison reads an integer as its residue in 64 bits. -/
theorem reads_eq (op : CompareOp) (a : Integer) : op.reads a = op.reading.residue 64 a.toInt := by
  unfold reads reading
  split
  · rfl
  · exact a.residue_toInt_long.symm

/-- Whether the comparison holds of two numbers. -/
def relates (op : CompareOp) (x y : Int) : Bool :=
  match op with
  | .eq => x = y
  | .ne => x ≠ y
  | .gt | .gtUn => y < x
  | .ge | .geUn => y ≤ x
  | .lt | .ltUn => x < y
  | .le | .leUn => x ≤ y

/-- Only the order of the operands counts. -/
theorem holds_eq_relates {op : CompareOp} {order : Ordering} {x y : Int}
    (hlt : order = .lt ↔ x < y) (hgt : order = .gt ↔ y < x) : op.holds order = op.relates x y := by
  have heq : order = .eq ↔ x = y := by
    cases order with
    | lt => exact iff_of_false nofun (Int.ne_of_lt (hlt.mp rfl))
    | gt => exact iff_of_false nofun (Int.ne_of_gt (hgt.mp rfl))
    | eq =>
      have hnotLess : ¬ x < y := fun h => Ordering.noConfusion (hlt.mpr h)
      have hnotGreater : ¬ y < x := fun h => Ordering.noConfusion (hgt.mpr h)
      exact iff_of_true rfl (by omega)
  rw [Bool.eq_iff_iff]
  cases op <;> simp only [holds, relates, beq_iff_eq, bne_iff_ne, ne_eq, decide_eq_true_eq, hlt,
    hgt, heq] <;> omega

/-- Numbers that are ordered alike compare alike. -/
theorem relates_congr {op : CompareOp} {x y x' y' : Int} (hlt : x < y ↔ x' < y')
    (hgt : y < x ↔ y' < x') : op.relates x y = op.relates x' y' := by
  cases op <;> simp only [relates, decide_eq_decide] <;> omega

/-- The comparison that holds of two numbers exactly if this one does not. -/
def negated : CompareOp → CompareOp
  | .eq => .ne
  | .ne => .eq
  | .gt => .le
  | .gtUn => .leUn
  | .ge => .lt
  | .geUn => .ltUn
  | .lt => .ge
  | .ltUn => .geUn
  | .le => .gt
  | .leUn => .gtUn

/-- A comparison and its negation read integers alike. -/
theorem reads_negated (op : CompareOp) (a : Integer) : op.negated.reads a = op.reads a := by
  cases op <;> rfl

/-- The negated comparison holds of numbers exactly if the other one does not. -/
theorem relates_negated (op : CompareOp) (x y : Int) :
    op.negated.relates x y = !op.relates x y := by
  rw [Bool.eq_iff_iff]
  cases op <;> simp [negated, relates]

/-- Words compare as the numbers that they are read as. -/
theorem onWords_eq_relates {w : Nat} (op : CompareOp) (a b : BitVec w) :
    op.onWords a b = op.relates (op.reading.ofWord a) (op.reading.ofWord b) := by
  unfold onWords reading
  split
  · exact holds_eq_relates (Nat.compare_eq_lt.trans Int.ofNat_lt.symm)
      (Nat.compare_eq_gt.trans Int.ofNat_lt.symm)
  · exact holds_eq_relates Int.compare_eq_lt Int.compare_eq_gt

end CompareOp

/-- Widening with the sign keeps the order of 32-bit integers, also if they are read without it. -/
theorem Reading.residue_lt_iff {reading : Reading} (a b : Int32) :
    reading.residue 32 a.toInt < reading.residue 32 b.toInt ↔
      reading.residue 64 a.toInt < reading.residue 64 b.toInt := by
  have ha := a.le_toInt
  have ha' := a.toInt_lt
  have hb := b.le_toInt
  have hb' := b.toInt_lt
  cases reading with
  | signed =>
    rw [residue, residue, residue, residue, Int.bmod_def, Int.bmod_def, Int.bmod_def, Int.bmod_def]
    omega
  | unsigned =>
    rw [residue, residue, residue, residue]
    omega

/-! ## Comparing integers -/

/-- Comparing integers compares the numbers that are read off them. -/
theorem compare_eq_relates (op : CompareOp) (a b : Integer) :
    Value.compare op a.value b.value = .ok (op.relates (op.reads a) (op.reads b)) := by
  rw [CompareOp.reads_eq, CompareOp.reads_eq]
  have hlong : ∀ x y : Int64, op.onWords x.toBitVec y.toBitVec =
      op.relates (op.reading.residue 64 x.toInt) (op.reading.residue 64 y.toInt) := fun x y => by
    rw [CompareOp.onWords_eq_relates, ← Reading.residue_toInt, ← Reading.residue_toInt,
      x.toInt_toBitVec, y.toInt_toBitVec]
  cases a with
  | int32 a =>
    cases b with
    | int32 b =>
      have hshort := op.onWords_eq_relates a.toBitVec b.toBitVec
      rw [← Reading.residue_toInt, ← Reading.residue_toInt, a.toInt_toBitVec, b.toInt_toBitVec,
        CompareOp.relates_congr (Reading.residue_lt_iff a b) (Reading.residue_lt_iff b a)] at hshort
      exact congrArg Except.ok hshort
    | int64 b =>
      have hwidened := hlong a.toInt64 b
      rw [a.toInt_toInt64] at hwidened
      exact congrArg Except.ok hwidened
  | int64 a =>
    cases b with
    | int32 b =>
      have hwidened := hlong a b.toInt64
      rw [b.toInt_toInt64] at hwidened
      exact congrArg Except.ok hwidened
    | int64 b => exact congrArg Except.ok (hlong a b)

/-- Integers, unlike floating-point numbers, are never unordered. -/
theorem compare_negated (op : CompareOp) (a b : Integer) :
    ∃ truth, Value.compare op.negated a.value b.value = .ok truth ∧
      Value.compare op a.value b.value = .ok (!truth) := by
  refine ⟨_, compare_eq_relates op.negated a b, ?_⟩
  rw [compare_eq_relates, CompareOp.reads_negated, CompareOp.reads_negated, CompareOp.relates_negated,
     Bool.not_not]

/-! ## The order -/

namespace Reading

/-! The comparisons of the family that reads its operands so. -/

/-- The comparison for less under a reading. -/
def less : Reading → CompareOp
  | .signed => .lt
  | .unsigned => .ltUn

/-- The comparison for less or equal under a reading. -/
def lessOrEqual : Reading → CompareOp
  | .signed => .le
  | .unsigned => .leUn

/-- The comparison for greater under a reading. -/
def greater : Reading → CompareOp
  | .signed => .gt
  | .unsigned => .gtUn

/-- The comparison for greater or equal under a reading. -/
def greaterOrEqual : Reading → CompareOp
  | .signed => .ge
  | .unsigned => .geUn

end Reading

namespace Integer

/-- A comparison of two integers holds. -/
def Holds (op : CompareOp) (a b : Integer) : Prop :=
  Value.compare op a.value b.value = .ok true

/-- The comparisons of a family, with those for equality, are those of one total order. -/
structure TotallyOrdered (reading : Reading) : Prop where
  /-- Exactly one of the three holds. -/
  trichotomy (a b : Integer) :
    Holds reading.less a b ∧ ¬ Holds .eq a b ∧ ¬ Holds reading.greater a b ∨
      ¬ Holds reading.less a b ∧ Holds .eq a b ∧ ¬ Holds reading.greater a b ∨
      ¬ Holds reading.less a b ∧ ¬ Holds .eq a b ∧ Holds reading.greater a b
  greaterOrEqual_iff (a b : Integer) : Holds reading.greaterOrEqual a b ↔ ¬ Holds reading.less a b
  lessOrEqual_iff (a b : Integer) : Holds reading.lessOrEqual a b ↔ ¬ Holds reading.greater a b
  ne_iff (a b : Integer) : Holds .ne a b ↔ ¬ Holds .eq a b
  greater_iff (a b : Integer) : Holds reading.greater a b ↔ Holds reading.less b a
  less_trans (a b c : Integer) :
    Holds reading.less a b → Holds reading.less b c → Holds reading.less a c

/-- A comparison of integers holds exactly if it does of their residues in 64 bits. -/
theorem holds_iff {op : CompareOp} {a b : Integer} :
    Holds op a b ↔
      op.relates (op.reading.residue 64 a.toInt) (op.reading.residue 64 b.toInt) = true := by
  rw [Holds, compare_eq_relates, CompareOp.reads_eq, CompareOp.reads_eq, Except.ok.injEq]

section

variable {reading : Reading} {a b : Integer}

/-- One integer is less than another exactly if its residue is. -/
theorem holds_less_iff :
    Holds reading.less a b ↔ reading.residue 64 a.toInt < reading.residue 64 b.toInt := by
  rw [holds_iff]
  cases reading <;> exact decide_eq_true_iff

/-- One integer is at most another exactly if its residue is. -/
theorem holds_lessOrEqual_iff :
    Holds reading.lessOrEqual a b ↔ reading.residue 64 a.toInt ≤ reading.residue 64 b.toInt := by
  rw [holds_iff]
  cases reading <;> exact decide_eq_true_iff

/-- One integer is greater than another exactly if its residue is. -/
theorem holds_greater_iff :
    Holds reading.greater a b ↔ reading.residue 64 b.toInt < reading.residue 64 a.toInt := by
  rw [holds_iff]
  cases reading <;> exact decide_eq_true_iff

/-- One integer is at least another exactly if its residue is. -/
theorem holds_greaterOrEqual_iff :
    Holds reading.greaterOrEqual a b ↔
      reading.residue 64 b.toInt ≤ reading.residue 64 a.toInt := by
  rw [holds_iff]
  cases reading <;> exact decide_eq_true_iff

/-- Integers are equal exactly if their residues are, in either reading. -/
theorem holds_eq_iff (reading : Reading) :
    Holds .eq a b ↔ reading.residue 64 a.toInt = reading.residue 64 b.toInt := by
  rw [holds_iff]
  exact decide_eq_true_iff.trans Reading.residue_inj

/-- Integers are unequal exactly if they are not equal. -/
theorem holds_ne_iff : Holds .ne a b ↔ ¬ Holds .eq a b := by
  rw [holds_iff, holds_iff]
  exact decide_eq_true_iff.trans (not_congr decide_eq_true_iff).symm

end

/-- Under either reading the comparisons are those of one total order. -/
theorem totallyOrdered (reading : Reading) : TotallyOrdered reading where
  trichotomy a b := by
    rw [holds_less_iff, holds_eq_iff reading, holds_greater_iff]
    omega
  greaterOrEqual_iff a b := by
    rw [holds_greaterOrEqual_iff, holds_less_iff]
    omega
  lessOrEqual_iff a b := by
    rw [holds_lessOrEqual_iff, holds_greater_iff]
    omega
  ne_iff _ _ := holds_ne_iff
  greater_iff _ _ := holds_greater_iff.trans holds_less_iff.symm
  less_trans a b c := by
    rw [holds_less_iff, holds_less_iff, holds_less_iff]
    exact Int.lt_trans

end Integer

end ManagedCode
