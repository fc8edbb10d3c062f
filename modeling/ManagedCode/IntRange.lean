/-!
# Ranges of whole numbers

The numbers that a word of some bits can hold, read as signed or as unsigned.
-/

namespace ManagedCode

/-- The whole numbers from `low` to `high`. -/
structure IntRange where
  /-- The least number. -/
  low : Int
  /-- The greatest number. -/
  high : Int
  deriving DecidableEq, Repr

namespace IntRange

/-- The numbers of a word of `bits` bits in two's complement. -/
def signed (bits : Nat) : IntRange := ⟨-Nat.pow 2 (bits - 1), Nat.pow 2 (bits - 1) - 1⟩

/-- The numbers of a word of `bits` bits without a sign. -/
def unsigned (bits : Nat) : IntRange := ⟨0, Nat.pow 2 bits - 1⟩

/-- Whether a number belongs to the range. -/
def contains (range : IntRange) (n : Int) : Bool := range.low ≤ n && n ≤ range.high

/-- A range contains the numbers between its bounds. -/
theorem contains_iff {range : IntRange} {n : Int} :
    range.contains n = true ↔ range.low ≤ n ∧ n ≤ range.high := by
  rw [contains, Bool.and_eq_true, decide_eq_true_eq, decide_eq_true_eq]

/-- The number of the range that is nearest to `n`. -/
def clamp (range : IntRange) (n : Int) : Int :=
  if n < range.low then range.low else if range.high < n then range.high else n

end IntRange

end ManagedCode
