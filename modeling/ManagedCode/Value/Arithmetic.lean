import ManagedCode.Floating.Arithmetic
import ManagedCode.Value.Basic

/-!
# Arithmetic

The two-operand instructions. Two 32-bit integers give a 32-bit integer. Integers of different
widths are widened with their sign, except that a shift takes a 32-bit count only. As soon as one
operand is a floating-point number the other is converted to one. The integer operations are defined
once, for words of any width.
-/

namespace ManagedCode

/-- The two-operand instructions; the suffix `Un` reads integers as unsigned, and `Ovf` refuses a
result that has no representation. -/
inductive BinaryOp where
  | add | sub | mul | div | divUn | rem | remUn | and | or | xor | shl | shr | shrUn
  | addOvf | addOvfUn | subOvf | subOvfUn | mulOvf | mulOvfUn
  deriving DecidableEq, Repr

namespace BinaryOp

/-- Every operation. -/
def all : List BinaryOp :=
  [.add, .sub, .mul, .div, .divUn, .rem, .remUn, .and, .or, .xor, .shl, .shr, .shrUn, .addOvf,
    .addOvfUn, .subOvf, .subOvfUn, .mulOvf, .mulOvfUn]

/-- The name of the operation in messages. -/
def name : BinaryOp → String
  | .add => "add"
  | .sub => "sub"
  | .mul => "mul"
  | .div => "div"
  | .divUn => "div.un"
  | .rem => "rem"
  | .remUn => "rem.un"
  | .and => "and"
  | .or => "or"
  | .xor => "xor"
  | .shl => "shl"
  | .shr => "shr"
  | .shrUn => "shr.un"
  | .addOvf => "add.ovf"
  | .addOvfUn => "add.ovf.un"
  | .subOvf => "sub.ovf"
  | .subOvfUn => "sub.ovf.un"
  | .mulOvf => "mul.ovf"
  | .mulOvfUn => "mul.ovf.un"

/-- Whether the second operand is a shift count. -/
def isShift : BinaryOp → Bool
  | .shl | .shr | .shrUn => true
  | _ => false

/-- A signed division or remainder: faults on a zero divisor, and on the least number by minus
one. -/
def divided {w : Nat} (a b : BitVec w) (result : BitVec w) : Except Fault (BitVec w) :=
  if b = 0 then .error .divisionByZero
  else if BitVec.sdivOverflow a b then .error (.overflow "div")
  else .ok result

/-- An unsigned division or remainder: faults on a zero divisor. -/
def dividedUn {w : Nat} (b : BitVec w) (result : BitVec w) : Except Fault (BitVec w) :=
  if b = 0 then .error .divisionByZero else .ok result

/-- The result of an operation that refuses what cannot be represented. -/
def checked {w : Nat} (op : BinaryOp) (overflows : Bool) (result : BitVec w) :
    Except Fault (BitVec w) :=
  if overflows then .error (.overflow op.name) else .ok result

/-- The operation on words of one width. Shift counts are taken modulo the width. -/
def onWords {w : Nat} (op : BinaryOp) (a b : BitVec w) : Except Fault (BitVec w) :=
  match op with
  | .add => .ok (a + b)
  | .sub => .ok (a - b)
  | .mul => .ok (a * b)
  | .div => divided a b (a.sdiv b)
  | .rem => divided a b (a.srem b)
  | .divUn => dividedUn b (a.udiv b)
  | .remUn => dividedUn b (a.umod b)
  | .and => .ok (a &&& b)
  | .or => .ok (a ||| b)
  | .xor => .ok (a ^^^ b)
  | .shl => .ok (a <<< (b.toNat % w))
  | .shr => .ok (a.sshiftRight (b.toNat % w))
  | .shrUn => .ok (a >>> (b.toNat % w))
  | .addOvf => checked op (BitVec.saddOverflow a b) (a + b)
  | .addOvfUn => checked op (BitVec.uaddOverflow a b) (a + b)
  | .subOvf => checked op (BitVec.ssubOverflow a b) (a - b)
  | .subOvfUn => checked op (BitVec.usubOverflow a b) (a - b)
  | .mulOvf => checked op (BitVec.smulOverflow a b) (a * b)
  | .mulOvfUn => checked op (BitVec.umulOverflow a b) (a * b)

/-- The operation on 32-bit integers. -/
def onInt32 (op : BinaryOp) (a b : Int32) : Except Fault Value :=
  (op.onWords a.toBitVec b.toBitVec).map fun v => .int32 (Int32.ofBitVec v)

/-- The operation on 64-bit integers. -/
def onInt64 (op : BinaryOp) (a b : Int64) : Except Fault Value :=
  (op.onWords a.toBitVec b.toBitVec).map fun v => .int64 (Int64.ofBitVec v)

/-- The remainder of a floating-point division whose quotient is cut off. -/
def floatRemainder (a b : Float) : Float :=
  let parts (v : Float) := Floating.binary64.parts v.toBits.toNat
  Float.ofBits (((parts a).remainder (parts b)).toBits Floating.binary64).toUInt64

/-- The operation on floating-point numbers. -/
def onFloats (op : BinaryOp) (a b : Float) : Except Fault Value :=
  match op with
  | .add | .addOvf | .addOvfUn => .ok (.float64 (a + b))
  | .sub | .subOvf | .subOvfUn => .ok (.float64 (a - b))
  | .mul | .mulOvf | .mulOvfUn => .ok (.float64 (a * b))
  | .div | .divUn => .ok (.float64 (a / b))
  | .rem | .remUn => .ok (.float64 (floatRemainder a b))
  | .and | .or | .xor | .shl | .shr | .shrUn =>
    .error (.typeMismatch "integer operands" ("float64 " ++ op.name ++ " float64"))

end BinaryOp

namespace Value

/-- The fault of operands that an operation does not take. -/
def operandMismatch (op : BinaryOp) (a b : Value) : Fault :=
  .typeMismatch "numeric operands" (a.kind ++ " " ++ op.name ++ " " ++ b.kind)

/-- Applies a two-operand instruction. -/
def binary (op : BinaryOp) : Value → Value → Except Fault Value
  | .int32 a, .int32 b => op.onInt32 a b
  | .int64 a, .int32 b => op.onInt64 a b.toInt64
  | .int32 a, .int64 b =>
    if op.isShift then .error (operandMismatch op (.int32 a) (.int64 b))
    else op.onInt64 a.toInt64 b
  | .int64 a, .int64 b =>
    if op.isShift then .error (operandMismatch op (.int64 a) (.int64 b)) else op.onInt64 a b
  | .float64 a, .float64 b => op.onFloats a b
  | .float64 a, .int32 b => op.onFloats a b.toFloat
  | .float64 a, .int64 b => op.onFloats a b.toFloat
  | .int32 a, .float64 b => op.onFloats a.toFloat b
  | .int64 a, .float64 b => op.onFloats a.toFloat b
  | a, b => .error (operandMismatch op a b)

end Value

end ManagedCode
