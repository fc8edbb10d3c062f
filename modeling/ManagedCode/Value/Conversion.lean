import ManagedCode.Floating.Arithmetic
import ManagedCode.Value.Basic

/-!
# Conversion

The `conv` instructions. The source is read as a whole number, signed or unsigned, a floating-point
number by its whole part within 128 bits. An unchecked conversion keeps the low bits of the target
width; a checked one refuses a number outside the range of the target. Targets of up to 32 bits give
a 32-bit integer, those of 64 bits a 64-bit integer.
-/

namespace ManagedCode

/-- What a `conv` instruction converts to. -/
inductive ConversionTarget where
  | i1 | i2 | i4 | i8 | u1 | u2 | u4 | u8 | r4 | r8
  deriving DecidableEq, Repr

/-- The targets in order. -/
def ConversionTarget.all : List ConversionTarget :=
  [.i1, .i2, .i4, .i8, .u1, .u2, .u4, .u8, .r4, .r8]

/-- The part of a mnemonic that names the target: its kind and its number of bytes. -/
def ConversionTarget.name : ConversionTarget → String
  | .i1 => "i1"
  | .i2 => "i2"
  | .i4 => "i4"
  | .i8 => "i8"
  | .u1 => "u1"
  | .u2 => "u2"
  | .u4 => "u4"
  | .u8 => "u8"
  | .r4 => "r4"
  | .r8 => "r8"

/-- A `conv` instruction. -/
structure Conversion where
  /-- What it converts to. -/
  target : ConversionTarget
  /-- Whether a number outside the range of the target is a fault. -/
  checked : Bool
  /-- Whether the source is read as unsigned. -/
  unsignedSource : Bool
  deriving DecidableEq, Repr

/-- The numbers of an integer target. -/
def ConversionTarget.range : ConversionTarget → IntRange
  | .i1 => .signed 8
  | .i2 => .signed 16
  | .i4 => .signed 32
  | .i8 => .signed 64
  | .u1 => .unsigned 8
  | .u2 => .unsigned 16
  | .u4 => .unsigned 32
  | .u8 => .unsigned 64
  | .r4 | .r8 => ⟨0, 0⟩

/-- The value with the low bits of a whole number, or the number itself as floating point. -/
def ConversionTarget.ofInt (target : ConversionTarget) (n : Int) : Value :=
  match target with
  | .i1 => .int32 (Int8.ofInt n).toInt32
  | .i2 => .int32 (Int16.ofInt n).toInt32
  | .i4 => .int32 (Int32.ofInt n)
  | .u1 => .int32 (Int32.ofInt (n % 0x100))
  | .u2 => .int32 (Int32.ofInt (n % 0x10000))
  | .u4 => .int32 (Int32.ofInt n)
  | .i8 | .u8 => .int64 (Int64.ofInt n)
  | .r4 | .r8 => .float64 (Float.ofInt n)

namespace Conversion

/-- A conversion that keeps the low bits. -/
def plain (target : ConversionTarget) : Conversion := ⟨target, false, false⟩

/-- A conversion that refuses what is out of range. -/
def strict (target : ConversionTarget) (unsignedSource : Bool) : Conversion :=
  ⟨target, true, unsignedSource⟩

/-- Rounds to a 32-bit floating-point number and back. -/
def roundSingle (v : Float) : Float := v.toFloat32.toFloat

/-- A floating-point source for a floating-point target. -/
def onFloat (c : Conversion) (v : Float) : Value :=
  .float64 (if c.target = .r4 then roundSingle v else v)

/-- The range of 128-bit integers, within which the whole part of a floating-point number stays. -/
def wideRange : IntRange := .signed 128

/-- The result of an integer conversion of a whole number. -/
def onInt (c : Conversion) (n : Int) : Except Fault Value :=
  if c.checked && !c.target.range.contains n then .error (.overflow "conv.ovf")
  else .ok (c.target.ofInt n)

/-- Whether the target is a floating-point type. -/
def toFloat (c : Conversion) : Bool := c.target = .r4 || c.target = .r8

end Conversion

/-- Applies a `conv` instruction. -/
def Value.convert (c : Conversion) : Value → Except Fault Value
  | .int32 v =>
    if c.toFloat then .ok (c.onFloat (if c.unsignedSource then v.toUInt32.toFloat else v.toFloat))
    else c.onInt (if c.unsignedSource then v.toUInt32.toNat else v.toInt)
  | .int64 v =>
    if c.toFloat then .ok (c.onFloat (if c.unsignedSource then v.toUInt64.toFloat else v.toFloat))
    else c.onInt (if c.unsignedSource then v.toUInt64.toNat else v.toInt)
  | .float64 v =>
    if c.toFloat then .ok (c.onFloat v)
    else
      match Floating.binary64.parts v.toBits.toNat with
      | parts@(.finite ..) =>
        c.onInt (parts.truncate Conversion.wideRange)
      | parts =>
        if c.checked then .error (.overflow "conv.ovf")
        else c.onInt (parts.truncate Conversion.wideRange)
  | v => .error (mismatch "numeric" v)

end ManagedCode
