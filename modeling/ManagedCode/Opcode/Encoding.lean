import ManagedCode.Opcode.Basic

/-!
# Opcode bytes

An opcode is written as one byte, or as the byte `0xFE` and a second one. `encode` writes it;
`ofByte?` and `ofSecondByte?` look a byte up among the opcodes of that length, and `ofMnemonic?`
looks a listing name up.
-/

namespace ManagedCode.Opcode

/-- The byte that announces a two-byte opcode. -/
def extensionByte : UInt8 := 0xFE

/-- Whether the opcode is written as two bytes. -/
def isExtended (op : Opcode) : Bool := op.value > 0xFF

/-- The low byte of the encoded value. -/
def lowByte (op : Opcode) : UInt8 := op.value.toUInt8

/-- The number of bytes of the opcode itself, without its operand. -/
def size (op : Opcode) : Nat := if op.isExtended then 2 else 1

/-- The bytes of the opcode. -/
def encode (op : Opcode) : List UInt8 :=
  if op.isExtended then [extensionByte, op.lowByte] else [op.lowByte]

/-- The one-byte opcode written as `byte`. -/
def ofByte? (byte : UInt8) : Option Opcode :=
  all.find? fun op => !op.isExtended && op.lowByte == byte

/-- The two-byte opcode whose second byte is `byte`. -/
def ofSecondByte? (byte : UInt8) : Option Opcode :=
  all.find? fun op => op.isExtended && op.lowByte == byte

/-- The opcode with the given listing name. -/
def ofMnemonic? (mnemonic : String) : Option Opcode :=
  all.find? fun op => op.mnemonic == mnemonic

end ManagedCode.Opcode
