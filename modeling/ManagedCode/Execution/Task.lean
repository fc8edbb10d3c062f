import ManagedCode.Heap.Object
import ManagedCode.Value.Arithmetic
import ManagedCode.Value.Comparison
import ManagedCode.Value.Conversion

/-!
# Tasks

What an instruction asks the machine to do. Many opcodes are shapes of one task: the short and the
long form of a branch, the loads of a constant or of an argument with their index in the opcode or
behind it, the element accesses of every element type. `Instruction.task` reads the task off the
opcode and its operand.
-/

namespace ManagedCode

/-- When a conditional branch is taken. -/
inductive BranchTest where
  /-- The value on top is false. -/
  | isFalse
  /-- The value on top is true. -/
  | isTrue
  /-- The two values on top compare so. -/
  | compares (op : CompareOp)
  deriving DecidableEq, Repr

/-- What an instruction asks the machine to do. -/
inductive Task where
  | nothing
  | constant (value : Value)
  | loadArgument (index : Nat)
  | storeArgument (index : Nat)
  | loadLocal (index : Nat)
  | storeLocal (index : Nat)
  | duplicate
  | discard
  | negate
  | complement
  | binary (op : BinaryOp)
  | compare (op : CompareOp)
  | convert (conversion : Conversion)
  | loadString (text : String)
  | loadField (field : FieldRef)
  | storeField (field : FieldRef)
  | loadStatic (field : FieldRef)
  | storeStatic (field : FieldRef)
  | newArray (element : TypeRef)
  | arrayLength
  | loadElement
  | storeElement
  /-- Checks the type of an object; `orNull` gives null where a cast faults. -/
  | cast (target : TypeRef) (orNull : Bool)
  | jump (target : UInt32)
  | branch (test : BranchTest) (target : UInt32)
  | switch (targets : List UInt32)
  | call (method : MethodRef)
  | callVirtual (method : MethodRef)
  | construct (method : MethodRef)
  | leave
  /-- The opcode cannot be executed. -/
  | unsupported
  /-- The operand is not of the form that the opcode requires. -/
  | missingOperand
  deriving DecidableEq, Repr

namespace Task

/-- The task for the index of a local or argument. -/
def onVariable (operand : Option Operand) (task : Nat → Task) : Task :=
  match operand with
  | some (.variable index) => task index.toNat
  | _ => .missingOperand

/-- The task for a field. -/
def onField (operand : Option Operand) (task : FieldRef → Task) : Task :=
  match operand with
  | some (.field field) => task field
  | _ => .missingOperand

/-- The task for a type. -/
def onType (operand : Option Operand) (task : TypeRef → Task) : Task :=
  match operand with
  | some (.type type) => task type
  | _ => .missingOperand

/-- The task for a method. -/
def onMethod (operand : Option Operand) (task : MethodRef → Task) : Task :=
  match operand with
  | some (.method method) => task method
  | _ => .missingOperand

/-- The task for a branch target. -/
def onTarget (operand : Option Operand) (task : UInt32 → Task) : Task :=
  match operand with
  | some (.target target) => task target
  | _ => .missingOperand

/-- The task to push a number. -/
def ofConstant (operand : Option Operand) : Task :=
  match operand with
  | some (.int32 v) => .constant (.int32 v)
  | some (.int64 v) => .constant (.int64 v)
  | some (.float32 bits) => .constant (.float64 (Float32.ofBits bits).toFloat)
  | some (.float64 bits) => .constant (.float64 (Float.ofBits bits))
  | _ => .missingOperand

/-- The task to push a string. -/
def ofString (operand : Option Operand) : Task :=
  match operand with
  | some (.string text) => .loadString text
  | _ => .missingOperand

/-- The task to choose among targets. -/
def ofTargets (operand : Option Operand) : Task :=
  match operand with
  | some (.switch targets) => .switch targets
  | _ => .missingOperand

end Task

namespace Opcode

/-- The two-operand operation of an arithmetic opcode. -/
def binaryOp? : Opcode → Option BinaryOp
  | .add => some .add
  | .sub => some .sub
  | .mul => some .mul
  | .div => some .div
  | .divUn => some .divUn
  | .rem => some .rem
  | .remUn => some .remUn
  | .and => some .and
  | .or => some .or
  | .xor => some .xor
  | .shl => some .shl
  | .shr => some .shr
  | .shrUn => some .shrUn
  | .addOvf => some .addOvf
  | .addOvfUn => some .addOvfUn
  | .subOvf => some .subOvf
  | .subOvfUn => some .subOvfUn
  | .mulOvf => some .mulOvf
  | .mulOvfUn => some .mulOvfUn
  | _ => none

/-- The comparison of an opcode that pushes a truth value. -/
def compareOp? : Opcode → Option CompareOp
  | .ceq => some .eq
  | .cgt => some .gt
  | .cgtUn => some .gtUn
  | .clt => some .lt
  | .cltUn => some .ltUn
  | _ => none

/-- The test of a conditional branch. -/
def branchTest? : Opcode → Option BranchTest
  | .brfalse | .brfalseS => some .isFalse
  | .brtrue | .brtrueS => some .isTrue
  | .beq | .beqS => some (.compares .eq)
  | .bneUn | .bneUnS => some (.compares .ne)
  | .bge | .bgeS => some (.compares .ge)
  | .bgeUn | .bgeUnS => some (.compares .geUn)
  | .bgt | .bgtS => some (.compares .gt)
  | .bgtUn | .bgtUnS => some (.compares .gtUn)
  | .ble | .bleS => some (.compares .le)
  | .bleUn | .bleUnS => some (.compares .leUn)
  | .blt | .bltS => some (.compares .lt)
  | .bltUn | .bltUnS => some (.compares .ltUn)
  | _ => none

/-- The conversion of a `conv` opcode. -/
def conversion? : Opcode → Option Conversion
  | .convI1 => some (.plain .i1)
  | .convI2 => some (.plain .i2)
  | .convI4 => some (.plain .i4)
  | .convI8 | .convI => some (.plain .i8)
  | .convU1 => some (.plain .u1)
  | .convU2 => some (.plain .u2)
  | .convU4 => some (.plain .u4)
  | .convU8 | .convU => some (.plain .u8)
  | .convR4 => some (.plain .r4)
  | .convR8 => some (.plain .r8)
  | .convRUn => some ⟨.r8, false, true⟩
  | .convOvfI1 => some (.strict .i1 false)
  | .convOvfI2 => some (.strict .i2 false)
  | .convOvfI4 => some (.strict .i4 false)
  | .convOvfI8 | .convOvfI => some (.strict .i8 false)
  | .convOvfU1 => some (.strict .u1 false)
  | .convOvfU2 => some (.strict .u2 false)
  | .convOvfU4 => some (.strict .u4 false)
  | .convOvfU8 | .convOvfU => some (.strict .u8 false)
  | .convOvfI1Un => some (.strict .i1 true)
  | .convOvfI2Un => some (.strict .i2 true)
  | .convOvfI4Un => some (.strict .i4 true)
  | .convOvfI8Un | .convOvfIUn => some (.strict .i8 true)
  | .convOvfU1Un => some (.strict .u1 true)
  | .convOvfU2Un => some (.strict .u2 true)
  | .convOvfU4Un => some (.strict .u4 true)
  | .convOvfU8Un | .convOvfUUn => some (.strict .u8 true)
  | _ => none

/-- The task of an opcode that stands alone and is none of the above. -/
def simpleTask? : Opcode → Option Task
  | .nop | .box | .unbox | .unboxAny => some .nothing
  | .ldarg0 => some (.loadArgument 0)
  | .ldarg1 => some (.loadArgument 1)
  | .ldarg2 => some (.loadArgument 2)
  | .ldarg3 => some (.loadArgument 3)
  | .ldloc0 => some (.loadLocal 0)
  | .ldloc1 => some (.loadLocal 1)
  | .ldloc2 => some (.loadLocal 2)
  | .ldloc3 => some (.loadLocal 3)
  | .stloc0 => some (.storeLocal 0)
  | .stloc1 => some (.storeLocal 1)
  | .stloc2 => some (.storeLocal 2)
  | .stloc3 => some (.storeLocal 3)
  | .ldnull => some (.constant .null)
  | .ldcI4M1 => some (.constant (.int32 (-1)))
  | .ldcI40 => some (.constant (.int32 0))
  | .ldcI41 => some (.constant (.int32 1))
  | .ldcI42 => some (.constant (.int32 2))
  | .ldcI43 => some (.constant (.int32 3))
  | .ldcI44 => some (.constant (.int32 4))
  | .ldcI45 => some (.constant (.int32 5))
  | .ldcI46 => some (.constant (.int32 6))
  | .ldcI47 => some (.constant (.int32 7))
  | .ldcI48 => some (.constant (.int32 8))
  | .dup => some .duplicate
  | .pop => some .discard
  | .neg => some .negate
  | .not => some .complement
  | .ldlen => some .arrayLength
  | .ldelemI1 | .ldelemU1 | .ldelemI2 | .ldelemU2 | .ldelemI4 | .ldelemU4 | .ldelemI8 | .ldelemI
  | .ldelemR4 | .ldelemR8 | .ldelemRef | .ldelem => some .loadElement
  | .stelemI | .stelemI1 | .stelemI2 | .stelemI4 | .stelemI8 | .stelemR4 | .stelemR8 | .stelemRef
  | .stelem => some .storeElement
  | .ret => some .leave
  | _ => none

/-- The task of an opcode that needs no operand. -/
def plainTask? (op : Opcode) : Option Task :=
  (op.binaryOp?.map .binary) <|> (op.compareOp?.map .compare) <|> (op.conversion?.map .convert) <|>
    op.simpleTask?

/-- The task of an opcode with its operand. -/
def operandTask (op : Opcode) (operand : Option Operand) : Task :=
  match op with
  | .ldargS | .ldarg => Task.onVariable operand .loadArgument
  | .stargS | .starg => Task.onVariable operand .storeArgument
  | .ldlocS | .ldloc => Task.onVariable operand .loadLocal
  | .stlocS | .stloc => Task.onVariable operand .storeLocal
  | .ldcI4S | .ldcI4 | .ldcI8 | .ldcR4 | .ldcR8 => Task.ofConstant operand
  | .ldstr => Task.ofString operand
  | .ldfld => Task.onField operand .loadField
  | .stfld => Task.onField operand .storeField
  | .ldsfld => Task.onField operand .loadStatic
  | .stsfld => Task.onField operand .storeStatic
  | .newarr => Task.onType operand .newArray
  | .castclass => Task.onType operand (.cast · false)
  | .isinst => Task.onType operand (.cast · true)
  | .br | .brS | .leave | .leaveS => Task.onTarget operand .jump
  | .switch => Task.ofTargets operand
  | .call => Task.onMethod operand .call
  | .callvirt => Task.onMethod operand .callVirtual
  | .newobj => Task.onMethod operand .construct
  | _ => .unsupported

end Opcode

/-- What an instruction asks the machine to do. The operand is checked first, so an instruction that
lacks its operand fails before it takes a value from the stack. Where the check could come later, in
`stloc`, `starg` and the conditional branches, only an instruction with a malformed operand would
show it, and no decoded body has one. -/
def Instruction.task (inst : Instruction) : Task :=
  let op := inst.opcode
  match op.plainTask?, op.branchTest? with
  | some task, _ => task
  | none, some test => Task.onTarget inst.operand (.branch test)
  | none, none => op.operandTask inst.operand

end ManagedCode
