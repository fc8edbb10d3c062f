import ManagedCode.Floating.Decimal
import ManagedCode.Reference.Member
import ManagedCode.Text.Literal

/-!
# Instructions

A decoded instruction is an opcode, the byte offset at which it starts and an operand whose form is
fixed by the opcode's operand kind. Its listing line is `IL_0000: mnemonic operand`.
-/

namespace ManagedCode

/-- The operand of an instruction, with its tokens resolved. -/
inductive Operand where
  | int32 (value : Int32)
  | int64 (value : Int64)
  /-- The bits of a 32-bit floating-point number. -/
  | float32 (bits : UInt32)
  /-- The bits of a 64-bit floating-point number. -/
  | float64 (bits : UInt64)
  | string (text : String)
  /-- The byte offset that a branch goes to. -/
  | target (offset : UInt32)
  /-- The byte offsets that a switch may go to. -/
  | switch (offsets : List UInt32)
  | field (ref : FieldRef)
  | method (ref : MethodRef)
  | type (ref : TypeRef)
  /-- The index of a local or argument. -/
  | variable (index : UInt16)
  /-- The token of a stand-alone signature. -/
  | signature (token : Token)
  /-- A token that could not be resolved. -/
  | unresolved (token : Token)
  deriving DecidableEq, Repr

/-- A byte offset with at least four digits. -/
def offsetText (offset : UInt32) : String := Text.paddedText 4 offset.toNat

/-- The operand as a listing shows it. -/
def Operand.text : Operand → String
  | .int32 value => Text.intText value.toInt
  | .int64 value => Text.intText value.toInt
  | .float32 bits => Floating.binary32.text bits.toNat
  | .float64 bits => Floating.binary64.text bits.toNat
  | .string text => "\"" ++ String.ofList (Text.escape text.toList) ++ "\""
  | .target offset => offsetText offset
  | .switch offsets => "(" ++ ",".intercalate (offsets.map offsetText) ++ ")"
  | .field ref => ref.text
  | .method ref => ref.text
  | .type ref => ref.fullName
  | .variable index => Text.natText index.toNat
  | .signature _ | .unresolved _ => "not supported"

/-- A decoded instruction. -/
structure Instruction where
  /-- What the instruction does. -/
  opcode : Opcode
  /-- The byte offset at which the instruction starts. -/
  offset : UInt32
  /-- The operand, if the opcode has one. -/
  operand : Option Operand
  deriving DecidableEq, Repr

/-- The label that a listing puts in front of the instruction at an offset. -/
def listingLabel (offset : UInt32) : String := "IL_" ++ offsetText offset

/-- The listing line. -/
def Instruction.text (inst : Instruction) : String :=
  let head := listingLabel inst.offset ++ ": " ++ inst.opcode.mnemonic
  match inst.operand with
  | none => head
  | some operand => head ++ " " ++ operand.text

/-- The listing of a sequence of instructions, one line each. -/
def listing (instructions : List Instruction) : String :=
  "\n".intercalate (instructions.map Instruction.text)

/-- The instructions of a method. A method without any is native. -/
structure Body where
  /-- The instructions in order. -/
  instructions : Array Instruction
  deriving DecidableEq, Repr

namespace Body

/-- The body without instructions. -/
def empty : Body := ⟨#[]⟩

instance : Inhabited Body := ⟨empty⟩

/-- The number of instructions. -/
def size (body : Body) : Nat := body.instructions.size

/-- Whether there are no instructions. -/
def isEmpty (body : Body) : Bool := body.instructions.isEmpty

/-- The instruction at a position. -/
def get? (body : Body) (position : Nat) : Option Instruction := body.instructions[position]?

/-- The position of the instruction that starts at a byte offset. It is the first one where several
instructions claim the same offset, and a table from offsets would have the last one; the two agree
on every decoded body, whose offsets ascend strictly. -/
def indexOf? (body : Body) (offset : UInt32) : Option Nat :=
  body.instructions.findIdx? fun inst => inst.offset == offset

/-- The listing of the body. -/
def text (body : Body) : String := listing body.instructions.toList

end Body

end ManagedCode
