import ManagedCode.Text.Numeral

/-!
# Byte sequences

Numbers are stored with their least significant byte first. A byte sequence is written with two
hexadecimal digits a byte.
-/

namespace ManagedCode.Bytes

/-- The low `width` bytes of a number. -/
def ofNat : (width : Nat) → Nat → List UInt8
  | 0, _ => []
  | width + 1, n => n.toUInt8 :: ofNat width (n / 256)

/-- The number that a sequence of bytes stands for. -/
def toNat : List UInt8 → Nat
  | [] => 0
  | byte :: bytes => byte.toNat + 256 * toNat bytes

/-- The low `width` bytes of a whole number in two's complement. -/
def ofInt (width : Nat) (n : Int) : List UInt8 := ofNat width (n % Nat.pow 256 width).toNat

/-- The number in the first `width` bytes, and the bytes behind them, if there are that many. -/
def take? : (width : Nat) → List UInt8 → Option (Nat × List UInt8)
  | 0, bytes => some (0, bytes)
  | _ + 1, [] => none
  | width + 1, byte :: bytes => do
    let (n, bytes) ← take? width bytes
    return (byte.toNat + 256 * n, bytes)

/-- The numbers in the first `count` groups of `width` bytes, if there are that many. -/
def takeMany? (width : Nat) : (count : Nat) → List UInt8 → Option (List Nat × List UInt8)
  | 0, bytes => some ([], bytes)
  | count + 1, bytes => do
    let (n, bytes) ← take? width bytes
    let (ns, bytes) ← takeMany? width count bytes
    return (n :: ns, bytes)

/-- The digits of a byte sequence, two a byte and in lower case. -/
def hex (bytes : List UInt8) : List Char :=
  bytes.flatMap fun byte => Text.padZeros 2 (Nat.toDigits 16 byte.toNat)

/-- The byte sequence that digits stand for, two a byte. -/
def ofHex? : List Char → Option (List UInt8)
  | [] => some []
  | [_] => none
  | a :: b :: digits => do
    let high ← Text.digit? 16 a
    let low ← Text.digit? 16 b
    return (16 * high + low).toUInt8 :: (← ofHex? digits)

end ManagedCode.Bytes
