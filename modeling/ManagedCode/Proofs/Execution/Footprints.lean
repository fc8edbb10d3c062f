import ManagedCode.Execution.Step

/-!
# What an instruction may touch

The footprint of an instruction says how many values it takes from the evaluation stack and how many
it pushes, which local, argument or static field it stores, and what it does with the heap. It is
read off the opcode and the operand for the instructions that go on with the next one. Many of them
are shapes of one task, so it is enough to know what every task touches.
-/

namespace ManagedCode

/-- What is done with the heap. -/
inductive HeapUse where
  | nothing
  /-- An object is added. -/
  | object
  /-- A field of an object is replaced. -/
  | field
  /-- An element of an array is replaced. -/
  | element
  deriving DecidableEq, Repr

/-- What may be touched. -/
structure Footprint where
  /-- The number of values that are taken from the evaluation stack. -/
  operands : Nat
  /-- The number of values that are pushed. -/
  results : Nat
  /-- The local that is stored. -/
  storedLocal? : Option Nat := none
  /-- The argument that is stored. -/
  storedArgument? : Option Nat := none
  /-- The static field that is stored. -/
  storedStatic? : Option FieldRef := none
  /-- What is done with the heap. -/
  heap : HeapUse := .nothing
  deriving DecidableEq, Repr

namespace Instruction

/-- The index in the operand. -/
def index? (inst : Instruction) : Option Nat :=
  match inst.operand with
  | some (.variable index) => some index.toNat
  | _ => none

/-- The field in the operand. -/
def field? (inst : Instruction) : Option FieldRef :=
  match inst.operand with
  | some (.field field) => some field
  | _ => none

/-- What an instruction may touch that goes on with the next one. Values carry their type, so that
boxing is the identity; and opcodes that cannot be executed touch nothing. -/
def footprint (inst : Instruction) : Footprint :=
  match inst.opcode with
  | .add | .sub | .mul | .div | .divUn | .rem | .remUn | .and | .or | .xor | .shl | .shr | .shrUn
  | .addOvf | .addOvfUn | .subOvf | .subOvfUn | .mulOvf | .mulOvfUn
  | .ceq | .cgt | .cgtUn | .clt | .cltUn => { operands := 2, results := 1 }
  | .neg | .not
  | .convI1 | .convI2 | .convI4 | .convI8 | .convI | .convU1 | .convU2 | .convU4 | .convU8 | .convU
  | .convR4 | .convR8 | .convRUn
  | .convOvfI1 | .convOvfI2 | .convOvfI4 | .convOvfI8 | .convOvfI
  | .convOvfU1 | .convOvfU2 | .convOvfU4 | .convOvfU8 | .convOvfU
  | .convOvfI1Un | .convOvfI2Un | .convOvfI4Un | .convOvfI8Un | .convOvfIUn
  | .convOvfU1Un | .convOvfU2Un | .convOvfU4Un | .convOvfU8Un | .convOvfUUn
  | .castclass | .isinst | .ldfld | .ldlen => { operands := 1, results := 1 }
  | .ldarg0 | .ldarg1 | .ldarg2 | .ldarg3 | .ldargS | .ldarg
  | .ldloc0 | .ldloc1 | .ldloc2 | .ldloc3 | .ldlocS | .ldloc
  | .ldcI4M1 | .ldcI40 | .ldcI41 | .ldcI42 | .ldcI43 | .ldcI44 | .ldcI45 | .ldcI46 | .ldcI47
  | .ldcI48 | .ldcI4S | .ldcI4 | .ldcI8 | .ldcR4 | .ldcR8
  | .ldnull | .ldsfld => { operands := 0, results := 1 }
  | .dup => { operands := 1, results := 2 }
  | .pop => { operands := 1, results := 0 }
  | .stloc0 => { operands := 1, results := 0, storedLocal? := some 0 }
  | .stloc1 => { operands := 1, results := 0, storedLocal? := some 1 }
  | .stloc2 => { operands := 1, results := 0, storedLocal? := some 2 }
  | .stloc3 => { operands := 1, results := 0, storedLocal? := some 3 }
  | .stlocS | .stloc => { operands := 1, results := 0, storedLocal? := inst.index? }
  | .stargS | .starg => { operands := 1, results := 0, storedArgument? := inst.index? }
  | .stsfld => { operands := 1, results := 0, storedStatic? := inst.field? }
  | .ldelemI1 | .ldelemU1 | .ldelemI2 | .ldelemU2 | .ldelemI4 | .ldelemU4 | .ldelemI8 | .ldelemI
  | .ldelemR4 | .ldelemR8 | .ldelemRef | .ldelem => { operands := 2, results := 1 }
  | .ldstr => { operands := 0, results := 1, heap := .object }
  | .newarr => { operands := 1, results := 1, heap := .object }
  | .stfld => { operands := 2, results := 0, heap := .field }
  | .stelemI | .stelemI1 | .stelemI2 | .stelemI4 | .stelemI8 | .stelemR4 | .stelemR8 | .stelemRef
  | .stelem => { operands := 3, results := 0, heap := .element }
  | _ => { operands := 0, results := 0 }

end Instruction

namespace Task

/-- What a task touches when it is performed. -/
def footprint : Task → Footprint
  | .constant _ | .loadArgument _ | .loadLocal _ | .loadStatic _ => { operands := 0, results := 1 }
  | .storeArgument index => { operands := 1, results := 0, storedArgument? := some index }
  | .storeLocal index => { operands := 1, results := 0, storedLocal? := some index }
  | .storeStatic field => { operands := 1, results := 0, storedStatic? := some field }
  | .duplicate => { operands := 1, results := 2 }
  | .discard => { operands := 1, results := 0 }
  | .negate | .complement | .convert _ | .loadField _ | .arrayLength | .cast _ _ =>
    { operands := 1, results := 1 }
  | .binary _ | .compare _ | .loadElement => { operands := 2, results := 1 }
  | .loadString _ => { operands := 0, results := 1, heap := .object }
  | .newArray _ => { operands := 1, results := 1, heap := .object }
  | .storeField _ => { operands := 2, results := 0, heap := .field }
  | .storeElement => { operands := 3, results := 0, heap := .element }
  | _ => { operands := 0, results := 0 }

/-- Whether the task is performed in place. -/
def isPerformed : Task → Bool
  | .jump _ | .branch _ _ | .switch _ | .call _ | .callVirtual _ | .construct _ | .leave
  | .unsupported | .missingOperand => false
  | _ => true

end Task

namespace Instruction

/-- An instruction that goes on with the next one cannot be executed, lacks its operand, or is a
task with the footprint of the instruction. -/
theorem task_cases {inst : Instruction} (h : inst.opcode.flow = .next) :
    inst.task = .unsupported ∨ inst.task = .missingOperand ∨
      inst.task.isPerformed = true ∧ inst.task.footprint = inst.footprint := by
  obtain ⟨op, offset, operand⟩ := inst
  change op.flow = .next at h
  cases op
  all_goals first
    | exact absurd h (by decide)
    | exact .inl rfl
    | exact .inr (.inr ⟨rfl, rfl⟩)
    | cases operand with
      | none => exact .inr (.inl rfl)
      | some operand =>
        cases operand <;> first | exact .inr (.inl rfl) | exact .inr (.inr ⟨rfl, rfl⟩)

end Instruction

end ManagedCode
