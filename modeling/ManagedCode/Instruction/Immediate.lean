import ManagedCode.Bytes
import ManagedCode.Instruction.Basic
import ManagedCode.Opcode.Encoding

/-!
# Encoded instructions

What the bytes of one instruction say before any token is resolved: the opcode and an immediate
operand of the width that its kind prescribes. A branch displacement counts from the end of the
instruction, for a switch from the end of its table, and is turned into an absolute offset.
-/

namespace ManagedCode

/-- An operand as it is read from the bytes. -/
inductive Immediate where
  | none
  | variable (index : UInt16)
  | int32 (value : Int32)
  | int64 (value : Int64)
  | float32 (bits : UInt32)
  | float64 (bits : UInt64)
  | target (offset : UInt32)
  | switch (offsets : List UInt32)
  | token (token : Token)
  deriving DecidableEq, Repr

namespace Immediate

/-- The absolute offset of a displacement that counts from `base`. The error names the offset
`start` of the operand. -/
def absolute (start : Nat) (base : Nat) (displacement : Int) : Except DecodeError UInt32 :=
  let target := base + displacement
  if (IntRange.unsigned 32).contains target then .ok target.toNat.toUInt32
  else .error (.badBranchTarget start target)

/-- A number of `width` bytes at the operand offset `start`. -/
def readWord (width start : Nat) (bytes : List UInt8) : Except DecodeError (Nat × List UInt8) :=
  match Bytes.take? width bytes with
  | some result => .ok result
  | Option.none => .error (.truncated start)

/-- A switch table: its targets count from the end of the table. -/
def readTable (start : Nat) (bytes : List UInt8) : Except DecodeError (Immediate × List UInt8) := do
  let (count, bytes) ← readWord 4 start bytes
  match Bytes.takeMany? 4 count bytes with
  | Option.none => throw (.truncated start)
  | some (words, rest) =>
    let base := start + 4 + 4 * count
    let offsets ← words.mapM fun word => absolute start base word.toInt32.toInt
    return (.switch offsets, rest)

/-- Reads an operand of the given kind at the offset `start`. -/
def read (kind : OperandKind) (start : Nat) (bytes : List UInt8) :
    Except DecodeError (Immediate × List UInt8) :=
  let word (width : Nat) (make : Nat → Except DecodeError Immediate) := do
    let (n, rest) ← readWord width start bytes
    return (← make n, rest)
  match kind with
  | .none => .ok (.none, bytes)
  | .shortVariable => word 1 fun n => .ok (.variable n.toUInt16)
  | .variable => word 2 fun n => .ok (.variable n.toUInt16)
  | .shortInt32 => word 1 fun n => .ok (.int32 n.toInt8.toInt32)
  | .int32 => word 4 fun n => .ok (.int32 n.toInt32)
  | .int64 => word 8 fun n => .ok (.int64 n.toInt64)
  | .float32 => word 4 fun n => .ok (.float32 n.toUInt32)
  | .float64 => word 8 fun n => .ok (.float64 n.toUInt64)
  | .shortTarget => word 1 fun n => .target <$> absolute start (start + 1) n.toInt8.toInt
  | .target => word 4 fun n => .target <$> absolute start (start + 4) n.toInt32.toInt
  | .switch => readTable start bytes
  | .string | .field | .method | .type | .token | .signature =>
    word 4 fun n => .ok (.token ⟨n.toUInt32⟩)

/-- The number of operand bytes: that of the kind, or the size of the table. -/
def size (kind : OperandKind) (immediate : Immediate) : Nat :=
  match kind.width?, immediate with
  | some width, _ => width
  | Option.none, .switch offsets => 4 + 4 * offsets.length
  | Option.none, _ => 0

end Immediate

/-- An instruction before its token is resolved. -/
structure Encoded where
  /-- What the instruction does. -/
  opcode : Opcode
  /-- The byte offset at which the instruction starts. -/
  offset : Nat
  /-- The operand. -/
  immediate : Immediate
  deriving DecidableEq, Repr

namespace Encoded

/-- The number of bytes of the instruction. -/
def size (encoded : Encoded) : Nat :=
  encoded.opcode.size + encoded.immediate.size encoded.opcode.kind

/-- Reads an opcode at the offset `offset`. -/
def readOpcode (offset : Nat) : List UInt8 → Except DecodeError (Opcode × List UInt8)
  | [] => .error (.truncated offset)
  | byte :: bytes =>
    if byte = Opcode.extensionByte then
      match bytes with
      | [] => .error (.truncated offset)
      | second :: bytes =>
        match Opcode.ofSecondByte? second with
        | some op => .ok (op, bytes)
        | none => .error (.unknownExtendedOpcode offset second)
    else
      match Opcode.ofByte? byte with
      | some op => .ok (op, bytes)
      | none => .error (.unknownOpcode offset byte)

/-- Reads one instruction at the offset `offset`. -/
def read (offset : Nat) (bytes : List UInt8) : Except DecodeError (Encoded × List UInt8) := do
  let (opcode, bytes) ← readOpcode offset bytes
  let (immediate, bytes) ← Immediate.read opcode.kind (offset + opcode.size) bytes
  return (⟨opcode, offset, immediate⟩, bytes)

end Encoded

end ManagedCode
