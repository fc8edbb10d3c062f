import ManagedCode.Value.Basic

/-!
# Comparison

Integers of different widths are widened with their sign; the unsigned comparisons then read the
bits as a natural number. A number and a floating-point number compare as floating-point numbers,
where two that cannot be ordered satisfy the unsigned comparisons and `ne` only. References can be
told apart but have no order.
-/

namespace ManagedCode

/-- The comparisons; the suffix `Un` reads integers as unsigned. -/
inductive CompareOp where
  | eq | ne | gt | gtUn | ge | geUn | lt | ltUn | le | leUn
  deriving DecidableEq, Repr

namespace CompareOp

/-- The comparisons in order. -/
def all : List CompareOp := [.eq, .ne, .gt, .gtUn, .ge, .geUn, .lt, .ltUn, .le, .leUn]

/-- The part of a mnemonic that names the comparison. -/
def name : CompareOp → String
  | .eq => "eq"
  | .ne => "ne"
  | .gt => "gt"
  | .gtUn => "gt.un"
  | .ge => "ge"
  | .geUn => "ge.un"
  | .lt => "lt"
  | .ltUn => "lt.un"
  | .le => "le"
  | .leUn => "le.un"

/-- Whether integers are read as unsigned. -/
def isUnsigned : CompareOp → Bool
  | .gtUn | .geUn | .ltUn | .leUn => true
  | _ => false

/-- Whether the comparison holds of operands in the given order. -/
def holds : CompareOp → Ordering → Bool
  | .eq, o => o == .eq
  | .ne, o => o != .eq
  | .gt, o | .gtUn, o => o == .gt
  | .ge, o | .geUn, o => o != .lt
  | .lt, o | .ltUn, o => o == .lt
  | .le, o | .leUn, o => o != .gt

/-- The comparison of words of one width. -/
def onWords {w : Nat} (op : CompareOp) (a b : BitVec w) : Bool :=
  if op.isUnsigned then op.holds (compare a.toNat b.toNat) else op.holds (compare a.toInt b.toInt)

/-- The order of two floating-point numbers, if they have one. -/
def floatOrder? (a b : Float) : Option Ordering :=
  if a < b then some .lt else if a == b then some .eq else if b < a then some .gt else none

/-- The comparison of floating-point numbers. -/
def onFloats (op : CompareOp) (a b : Float) : Bool :=
  match floatOrder? a b with
  | some order => op.holds order
  | none => op.isUnsigned || op == .ne

end CompareOp

/-- Compares two values. -/
def Value.compare (op : CompareOp) : Value → Value → Except Fault Bool
  | .int32 a, .int32 b => .ok (op.onWords a.toBitVec b.toBitVec)
  | .int32 a, .int64 b => .ok (op.onWords a.toInt64.toBitVec b.toBitVec)
  | .int64 a, .int32 b => .ok (op.onWords a.toBitVec b.toInt64.toBitVec)
  | .int64 a, .int64 b => .ok (op.onWords a.toBitVec b.toBitVec)
  | .float64 a, .float64 b => .ok (op.onFloats a b)
  | .float64 a, .int32 b => .ok (op.onFloats a b.toFloat)
  | .float64 a, .int64 b => .ok (op.onFloats a b.toFloat)
  | .int32 a, .float64 b => .ok (op.onFloats a.toFloat b)
  | .int64 a, .float64 b => .ok (op.onFloats a.toFloat b)
  | .ref a, .ref b =>
    match op with
    | .eq => .ok (a == b)
    | .ne | .gtUn => .ok (a != b)
    | _ => .ok false
  | .ref _, .null => .ok (op == .ne || op == .gtUn)
  | .null, .ref _ => .ok (op == .ne || op == .ltUn)
  | .null, .null => .ok (op == .eq || op == .geUn || op == .leUn)
  | a, b => .error (.typeMismatch "comparable operands" (a.kind ++ " and " ++ b.kind))

end ManagedCode
