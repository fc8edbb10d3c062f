import ManagedCode.Fault
import ManagedCode.Floating.Decimal

/-!
# Values

What an evaluation stack, a local, an argument or a field holds. A value carries its own type.
-/

namespace ManagedCode

/-- A dynamically typed value. -/
inductive Value where
  | int32 (value : Int32)
  | int64 (value : Int64)
  | float64 (value : Float)
  | ref (handle : Handle)
  | null
  deriving DecidableEq, Repr, Inhabited

namespace Value

/-- The word for the kind of the value in messages. -/
def kind : Value → String
  | .int32 _ => "int32"
  | .int64 _ => "int64"
  | .float64 _ => "float64"
  | .ref _ => "reference"
  | .null => "null"

/-- Whether `brfalse` branches: zero or null. -/
def isFalse : Value → Bool
  | .int32 v => v == 0
  | .int64 v => v == 0
  | .float64 v => v == 0
  | .ref _ => false
  | .null => true

/-- Whether `brtrue` branches: exactly one, or a reference. Any other number is neither true nor
false. -/
def isTrue : Value → Bool
  | .int32 v => v == 1
  | .int64 v => v == 1
  | .float64 v => v == 1
  | .ref _ => true
  | .null => false

/-- The truth value of a comparison. -/
def ofBool (b : Bool) : Value := .int32 (if b then 1 else 0)

/-- The fault of a value of the wrong kind. -/
def mismatch (expected : String) (found : Value) : Fault := .typeMismatch expected found.kind

/-- A 32-bit integer. -/
def toInt32 : Value → Except Fault Int32
  | .int32 v => .ok v
  | v => .error (mismatch "int32" v)

/-- An integer of either width, as an index or count. -/
def toIndex : Value → Except Fault Int64
  | .int32 v => .ok v.toInt64
  | .int64 v => .ok v
  | v => .error (mismatch "integer" v)

/-- A reference. -/
def toHandle : Value → Except Fault Handle
  | .ref h => .ok h
  | v => .error (mismatch "reference" v)

/-- The handle of a reference. -/
def handle? : Value → Option Handle
  | .ref h => some h
  | _ => none

/-- Whether two values are of one kind and equal; a number that is not a number equals none. -/
def same : Value → Value → Bool
  | .int32 a, .int32 b => a == b
  | .int64 a, .int64 b => a == b
  | .float64 a, .float64 b => a == b
  | .ref a, .ref b => a == b
  | .null, .null => true
  | _, _ => false

/-- The text of a 64-bit floating-point number. -/
def floatText (v : Float) : String := Floating.binary64.text v.toBits.toNat

/-- The text of a value on its own. -/
def text : Value → String
  | .int32 v => Text.intText v.toInt
  | .int64 v => Text.intText v.toInt
  | .float64 v => floatText v
  | .ref h => h.text
  | .null => "null"

/-- The negative of a number; the least integer is its own negative. -/
def negate : Value → Except Fault Value
  | .int32 v => .ok (.int32 (-v))
  | .int64 v => .ok (.int64 (-v))
  | .float64 v => .ok (.float64 (-v))
  | v => .error (mismatch "numeric" v)

/-- An integer with every bit flipped. -/
def complement : Value → Except Fault Value
  | .int32 v => .ok (.int32 (~~~v))
  | .int64 v => .ok (.int64 (~~~v))
  | v => .error (mismatch "integer" v)

end Value

end ManagedCode
