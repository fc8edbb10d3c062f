/-!
# Instruction opcodes

The closed set of opcodes of the intermediate language. Each opcode carries one row of the table
`Opcode.spec`: its mnemonic, its encoded value, the shape of the operand bytes behind it and the way
it moves the program counter. Every opcode of the instruction set has a row, so any method body can
be decoded even where only part of the set can be executed.
-/

namespace ManagedCode

/-- The shape of the bytes that follow an opcode. -/
inductive OperandKind where
  /-- No operand bytes. -/
  | none
  /-- One byte: the index of a local or argument. -/
  | shortVariable
  /-- Two bytes: the index of a local or argument. -/
  | variable
  /-- One signed byte, read as a 32-bit integer. -/
  | shortInt32
  /-- A 32-bit integer. -/
  | int32
  /-- A 64-bit integer. -/
  | int64
  /-- The bits of a 32-bit floating-point number. -/
  | float32
  /-- The bits of a 64-bit floating-point number. -/
  | float64
  /-- One signed byte: a branch displacement. -/
  | shortTarget
  /-- Four bytes: a signed branch displacement. -/
  | target
  /-- A four-byte count and that many four-byte displacements. -/
  | switch
  /-- The token of a user string. -/
  | string
  /-- The token of a field. -/
  | field
  /-- The token of a method or constructor. -/
  | method
  /-- The token of a type. -/
  | type
  /-- A token of any kind. -/
  | token
  /-- The token of a stand-alone signature. -/
  | signature
  deriving DecidableEq, Repr

/-- The number of operand bytes; a switch table has no fixed width. -/
def OperandKind.width? : OperandKind → Option Nat
  | .none => some 0
  | .shortVariable | .shortInt32 | .shortTarget => some 1
  | .variable => some 2
  | .int32 | .float32 | .target | .string | .field | .method | .type | .token | .signature => some 4
  | .int64 | .float64 => some 8
  | .switch => Option.none

/-- How an instruction moves the program counter. -/
inductive FlowClass where
  /-- Falls through to the next instruction. -/
  | next
  /-- Always jumps. -/
  | branch
  /-- Jumps or falls through. -/
  | condBranch
  /-- Runs another method, then falls through. -/
  | call
  /-- Leaves the method or a protected block. -/
  | leave
  /-- Raises an exception. -/
  | raise
  /-- Stops for a debugger. -/
  | pause
  /-- Modifies the instruction behind it. -/
  | modifier
  deriving DecidableEq, Repr

/-- The instruction set. -/
inductive Opcode where
  | nop | breakpoint | ldarg0 | ldarg1 | ldarg2 | ldarg3 | ldloc0 | ldloc1 | ldloc2 | ldloc3
  | stloc0 | stloc1 | stloc2 | stloc3 | ldargS | ldargaS | stargS | ldlocS | ldlocaS | stlocS
  | ldnull | ldcI4M1 | ldcI40 | ldcI41 | ldcI42 | ldcI43 | ldcI44 | ldcI45 | ldcI46 | ldcI47
  | ldcI48 | ldcI4S | ldcI4 | ldcI8 | ldcR4 | ldcR8 | dup | pop | jmp | call | calli | ret | brS
  | brfalseS | brtrueS | beqS | bgeS | bgtS | bleS | bltS | bneUnS | bgeUnS | bgtUnS | bleUnS
  | bltUnS | br | brfalse | brtrue | beq | bge | bgt | ble | blt | bneUn | bgeUn | bgtUn | bleUn
  | bltUn | switch | ldindI1 | ldindU1 | ldindI2 | ldindU2 | ldindI4 | ldindU4 | ldindI8 | ldindI
  | ldindR4 | ldindR8 | ldindRef | stindRef | stindI1 | stindI2 | stindI4 | stindI8 | stindR4
  | stindR8 | add | sub | mul | div | divUn | rem | remUn | and | or | xor | shl | shr | shrUn
  | neg | not | convI1 | convI2 | convI4 | convI8 | convR4 | convR8 | convU4 | convU8 | callvirt
  | cpobj | ldobj | ldstr | newobj | castclass | isinst | convRUn | unbox | throw | ldfld
  | ldflda | stfld | ldsfld | ldsflda | stsfld | stobj | convOvfI1Un | convOvfI2Un | convOvfI4Un
  | convOvfI8Un | convOvfU1Un | convOvfU2Un | convOvfU4Un | convOvfU8Un | convOvfIUn | convOvfUUn
  | box | newarr | ldlen | ldelema | ldelemI1 | ldelemU1 | ldelemI2 | ldelemU2 | ldelemI4
  | ldelemU4 | ldelemI8 | ldelemI | ldelemR4 | ldelemR8 | ldelemRef | stelemI | stelemI1
  | stelemI2 | stelemI4 | stelemI8 | stelemR4 | stelemR8 | stelemRef | ldelem | stelem | unboxAny
  | convOvfI1 | convOvfU1 | convOvfI2 | convOvfU2 | convOvfI4 | convOvfU4 | convOvfI8 | convOvfU8
  | refanyval | ckfinite | mkrefany | ldtoken | convU2 | convU1 | convI | convOvfI | convOvfU
  | addOvf | addOvfUn | mulOvf | mulOvfUn | subOvf | subOvfUn | endfinally | leave | leaveS
  | stindI | convU | arglist | ceq | cgt | cgtUn | clt | cltUn | ldftn | ldvirtftn | ldarg
  | ldarga | starg | ldloc | ldloca | stloc | localloc | endfilter | unaligned | volatile | tail
  | initobj | constrained | cpblk | initblk | noCheck | rethrow | sizeof | refanytype | readonly
  deriving DecidableEq, Repr

namespace Opcode

/-- Every opcode, in encoding order. -/
def all : List Opcode := [
  .nop, .breakpoint, .ldarg0, .ldarg1, .ldarg2, .ldarg3, .ldloc0, .ldloc1, .ldloc2, .ldloc3,
  .stloc0, .stloc1, .stloc2, .stloc3, .ldargS, .ldargaS, .stargS, .ldlocS, .ldlocaS, .stlocS,
  .ldnull, .ldcI4M1, .ldcI40, .ldcI41, .ldcI42, .ldcI43, .ldcI44, .ldcI45, .ldcI46, .ldcI47,
  .ldcI48, .ldcI4S, .ldcI4, .ldcI8, .ldcR4, .ldcR8, .dup, .pop, .jmp, .call, .calli, .ret, .brS,
  .brfalseS, .brtrueS, .beqS, .bgeS, .bgtS, .bleS, .bltS, .bneUnS, .bgeUnS, .bgtUnS, .bleUnS,
  .bltUnS, .br, .brfalse, .brtrue, .beq, .bge, .bgt, .ble, .blt, .bneUn, .bgeUn, .bgtUn, .bleUn,
  .bltUn, .switch, .ldindI1, .ldindU1, .ldindI2, .ldindU2, .ldindI4, .ldindU4, .ldindI8, .ldindI,
  .ldindR4, .ldindR8, .ldindRef, .stindRef, .stindI1, .stindI2, .stindI4, .stindI8, .stindR4,
  .stindR8, .add, .sub, .mul, .div, .divUn, .rem, .remUn, .and, .or, .xor, .shl, .shr, .shrUn,
  .neg, .not, .convI1, .convI2, .convI4, .convI8, .convR4, .convR8, .convU4, .convU8, .callvirt,
  .cpobj, .ldobj, .ldstr, .newobj, .castclass, .isinst, .convRUn, .unbox, .throw, .ldfld,
  .ldflda, .stfld, .ldsfld, .ldsflda, .stsfld, .stobj, .convOvfI1Un, .convOvfI2Un, .convOvfI4Un,
  .convOvfI8Un, .convOvfU1Un, .convOvfU2Un, .convOvfU4Un, .convOvfU8Un, .convOvfIUn, .convOvfUUn,
  .box, .newarr, .ldlen, .ldelema, .ldelemI1, .ldelemU1, .ldelemI2, .ldelemU2, .ldelemI4,
  .ldelemU4, .ldelemI8, .ldelemI, .ldelemR4, .ldelemR8, .ldelemRef, .stelemI, .stelemI1,
  .stelemI2, .stelemI4, .stelemI8, .stelemR4, .stelemR8, .stelemRef, .ldelem, .stelem, .unboxAny,
  .convOvfI1, .convOvfU1, .convOvfI2, .convOvfU2, .convOvfI4, .convOvfU4, .convOvfI8, .convOvfU8,
  .refanyval, .ckfinite, .mkrefany, .ldtoken, .convU2, .convU1, .convI, .convOvfI, .convOvfU,
  .addOvf, .addOvfUn, .mulOvf, .mulOvfUn, .subOvf, .subOvfUn, .endfinally, .leave, .leaveS,
  .stindI, .convU, .arglist, .ceq, .cgt, .cgtUn, .clt, .cltUn, .ldftn, .ldvirtftn, .ldarg,
  .ldarga, .starg, .ldloc, .ldloca, .stloc, .localloc, .endfilter, .unaligned, .volatile, .tail,
  .initobj, .constrained, .cpblk, .initblk, .noCheck, .rethrow, .sizeof, .refanytype, .readonly]

/-- What the instruction set says about one opcode. -/
structure Spec where
  /-- The name in listings. -/
  mnemonic : String
  /-- The encoded value; a two-byte opcode has the prefix `0xFE` in its high byte. -/
  value : UInt16
  /-- The shape of the operand. -/
  kind : OperandKind
  /-- The effect on the program counter. -/
  flow : FlowClass
  deriving DecidableEq, Repr

/-- The opcode table. -/
def spec : Opcode → Spec
  | .nop => ⟨"nop", 0x00, .none, .next⟩
  | .breakpoint => ⟨"break", 0x01, .none, .pause⟩
  | .ldarg0 => ⟨"ldarg.0", 0x02, .none, .next⟩
  | .ldarg1 => ⟨"ldarg.1", 0x03, .none, .next⟩
  | .ldarg2 => ⟨"ldarg.2", 0x04, .none, .next⟩
  | .ldarg3 => ⟨"ldarg.3", 0x05, .none, .next⟩
  | .ldloc0 => ⟨"ldloc.0", 0x06, .none, .next⟩
  | .ldloc1 => ⟨"ldloc.1", 0x07, .none, .next⟩
  | .ldloc2 => ⟨"ldloc.2", 0x08, .none, .next⟩
  | .ldloc3 => ⟨"ldloc.3", 0x09, .none, .next⟩
  | .stloc0 => ⟨"stloc.0", 0x0A, .none, .next⟩
  | .stloc1 => ⟨"stloc.1", 0x0B, .none, .next⟩
  | .stloc2 => ⟨"stloc.2", 0x0C, .none, .next⟩
  | .stloc3 => ⟨"stloc.3", 0x0D, .none, .next⟩
  | .ldargS => ⟨"ldarg.s", 0x0E, .shortVariable, .next⟩
  | .ldargaS => ⟨"ldarga.s", 0x0F, .shortVariable, .next⟩
  | .stargS => ⟨"starg.s", 0x10, .shortVariable, .next⟩
  | .ldlocS => ⟨"ldloc.s", 0x11, .shortVariable, .next⟩
  | .ldlocaS => ⟨"ldloca.s", 0x12, .shortVariable, .next⟩
  | .stlocS => ⟨"stloc.s", 0x13, .shortVariable, .next⟩
  | .ldnull => ⟨"ldnull", 0x14, .none, .next⟩
  | .ldcI4M1 => ⟨"ldc.i4.m1", 0x15, .none, .next⟩
  | .ldcI40 => ⟨"ldc.i4.0", 0x16, .none, .next⟩
  | .ldcI41 => ⟨"ldc.i4.1", 0x17, .none, .next⟩
  | .ldcI42 => ⟨"ldc.i4.2", 0x18, .none, .next⟩
  | .ldcI43 => ⟨"ldc.i4.3", 0x19, .none, .next⟩
  | .ldcI44 => ⟨"ldc.i4.4", 0x1A, .none, .next⟩
  | .ldcI45 => ⟨"ldc.i4.5", 0x1B, .none, .next⟩
  | .ldcI46 => ⟨"ldc.i4.6", 0x1C, .none, .next⟩
  | .ldcI47 => ⟨"ldc.i4.7", 0x1D, .none, .next⟩
  | .ldcI48 => ⟨"ldc.i4.8", 0x1E, .none, .next⟩
  | .ldcI4S => ⟨"ldc.i4.s", 0x1F, .shortInt32, .next⟩
  | .ldcI4 => ⟨"ldc.i4", 0x20, .int32, .next⟩
  | .ldcI8 => ⟨"ldc.i8", 0x21, .int64, .next⟩
  | .ldcR4 => ⟨"ldc.r4", 0x22, .float32, .next⟩
  | .ldcR8 => ⟨"ldc.r8", 0x23, .float64, .next⟩
  | .dup => ⟨"dup", 0x25, .none, .next⟩
  | .pop => ⟨"pop", 0x26, .none, .next⟩
  | .jmp => ⟨"jmp", 0x27, .method, .call⟩
  | .call => ⟨"call", 0x28, .method, .call⟩
  | .calli => ⟨"calli", 0x29, .signature, .call⟩
  | .ret => ⟨"ret", 0x2A, .none, .leave⟩
  | .brS => ⟨"br.s", 0x2B, .shortTarget, .branch⟩
  | .brfalseS => ⟨"brfalse.s", 0x2C, .shortTarget, .condBranch⟩
  | .brtrueS => ⟨"brtrue.s", 0x2D, .shortTarget, .condBranch⟩
  | .beqS => ⟨"beq.s", 0x2E, .shortTarget, .condBranch⟩
  | .bgeS => ⟨"bge.s", 0x2F, .shortTarget, .condBranch⟩
  | .bgtS => ⟨"bgt.s", 0x30, .shortTarget, .condBranch⟩
  | .bleS => ⟨"ble.s", 0x31, .shortTarget, .condBranch⟩
  | .bltS => ⟨"blt.s", 0x32, .shortTarget, .condBranch⟩
  | .bneUnS => ⟨"bne.un.s", 0x33, .shortTarget, .condBranch⟩
  | .bgeUnS => ⟨"bge.un.s", 0x34, .shortTarget, .condBranch⟩
  | .bgtUnS => ⟨"bgt.un.s", 0x35, .shortTarget, .condBranch⟩
  | .bleUnS => ⟨"ble.un.s", 0x36, .shortTarget, .condBranch⟩
  | .bltUnS => ⟨"blt.un.s", 0x37, .shortTarget, .condBranch⟩
  | .br => ⟨"br", 0x38, .target, .branch⟩
  | .brfalse => ⟨"brfalse", 0x39, .target, .condBranch⟩
  | .brtrue => ⟨"brtrue", 0x3A, .target, .condBranch⟩
  | .beq => ⟨"beq", 0x3B, .target, .condBranch⟩
  | .bge => ⟨"bge", 0x3C, .target, .condBranch⟩
  | .bgt => ⟨"bgt", 0x3D, .target, .condBranch⟩
  | .ble => ⟨"ble", 0x3E, .target, .condBranch⟩
  | .blt => ⟨"blt", 0x3F, .target, .condBranch⟩
  | .bneUn => ⟨"bne.un", 0x40, .target, .condBranch⟩
  | .bgeUn => ⟨"bge.un", 0x41, .target, .condBranch⟩
  | .bgtUn => ⟨"bgt.un", 0x42, .target, .condBranch⟩
  | .bleUn => ⟨"ble.un", 0x43, .target, .condBranch⟩
  | .bltUn => ⟨"blt.un", 0x44, .target, .condBranch⟩
  | .switch => ⟨"switch", 0x45, .switch, .condBranch⟩
  | .ldindI1 => ⟨"ldind.i1", 0x46, .none, .next⟩
  | .ldindU1 => ⟨"ldind.u1", 0x47, .none, .next⟩
  | .ldindI2 => ⟨"ldind.i2", 0x48, .none, .next⟩
  | .ldindU2 => ⟨"ldind.u2", 0x49, .none, .next⟩
  | .ldindI4 => ⟨"ldind.i4", 0x4A, .none, .next⟩
  | .ldindU4 => ⟨"ldind.u4", 0x4B, .none, .next⟩
  | .ldindI8 => ⟨"ldind.i8", 0x4C, .none, .next⟩
  | .ldindI => ⟨"ldind.i", 0x4D, .none, .next⟩
  | .ldindR4 => ⟨"ldind.r4", 0x4E, .none, .next⟩
  | .ldindR8 => ⟨"ldind.r8", 0x4F, .none, .next⟩
  | .ldindRef => ⟨"ldind.ref", 0x50, .none, .next⟩
  | .stindRef => ⟨"stind.ref", 0x51, .none, .next⟩
  | .stindI1 => ⟨"stind.i1", 0x52, .none, .next⟩
  | .stindI2 => ⟨"stind.i2", 0x53, .none, .next⟩
  | .stindI4 => ⟨"stind.i4", 0x54, .none, .next⟩
  | .stindI8 => ⟨"stind.i8", 0x55, .none, .next⟩
  | .stindR4 => ⟨"stind.r4", 0x56, .none, .next⟩
  | .stindR8 => ⟨"stind.r8", 0x57, .none, .next⟩
  | .add => ⟨"add", 0x58, .none, .next⟩
  | .sub => ⟨"sub", 0x59, .none, .next⟩
  | .mul => ⟨"mul", 0x5A, .none, .next⟩
  | .div => ⟨"div", 0x5B, .none, .next⟩
  | .divUn => ⟨"div.un", 0x5C, .none, .next⟩
  | .rem => ⟨"rem", 0x5D, .none, .next⟩
  | .remUn => ⟨"rem.un", 0x5E, .none, .next⟩
  | .and => ⟨"and", 0x5F, .none, .next⟩
  | .or => ⟨"or", 0x60, .none, .next⟩
  | .xor => ⟨"xor", 0x61, .none, .next⟩
  | .shl => ⟨"shl", 0x62, .none, .next⟩
  | .shr => ⟨"shr", 0x63, .none, .next⟩
  | .shrUn => ⟨"shr.un", 0x64, .none, .next⟩
  | .neg => ⟨"neg", 0x65, .none, .next⟩
  | .not => ⟨"not", 0x66, .none, .next⟩
  | .convI1 => ⟨"conv.i1", 0x67, .none, .next⟩
  | .convI2 => ⟨"conv.i2", 0x68, .none, .next⟩
  | .convI4 => ⟨"conv.i4", 0x69, .none, .next⟩
  | .convI8 => ⟨"conv.i8", 0x6A, .none, .next⟩
  | .convR4 => ⟨"conv.r4", 0x6B, .none, .next⟩
  | .convR8 => ⟨"conv.r8", 0x6C, .none, .next⟩
  | .convU4 => ⟨"conv.u4", 0x6D, .none, .next⟩
  | .convU8 => ⟨"conv.u8", 0x6E, .none, .next⟩
  | .callvirt => ⟨"callvirt", 0x6F, .method, .call⟩
  | .cpobj => ⟨"cpobj", 0x70, .type, .next⟩
  | .ldobj => ⟨"ldobj", 0x71, .type, .next⟩
  | .ldstr => ⟨"ldstr", 0x72, .string, .next⟩
  | .newobj => ⟨"newobj", 0x73, .method, .call⟩
  | .castclass => ⟨"castclass", 0x74, .type, .next⟩
  | .isinst => ⟨"isinst", 0x75, .type, .next⟩
  | .convRUn => ⟨"conv.r.un", 0x76, .none, .next⟩
  | .unbox => ⟨"unbox", 0x79, .type, .next⟩
  | .throw => ⟨"throw", 0x7A, .none, .raise⟩
  | .ldfld => ⟨"ldfld", 0x7B, .field, .next⟩
  | .ldflda => ⟨"ldflda", 0x7C, .field, .next⟩
  | .stfld => ⟨"stfld", 0x7D, .field, .next⟩
  | .ldsfld => ⟨"ldsfld", 0x7E, .field, .next⟩
  | .ldsflda => ⟨"ldsflda", 0x7F, .field, .next⟩
  | .stsfld => ⟨"stsfld", 0x80, .field, .next⟩
  | .stobj => ⟨"stobj", 0x81, .type, .next⟩
  | .convOvfI1Un => ⟨"conv.ovf.i1.un", 0x82, .none, .next⟩
  | .convOvfI2Un => ⟨"conv.ovf.i2.un", 0x83, .none, .next⟩
  | .convOvfI4Un => ⟨"conv.ovf.i4.un", 0x84, .none, .next⟩
  | .convOvfI8Un => ⟨"conv.ovf.i8.un", 0x85, .none, .next⟩
  | .convOvfU1Un => ⟨"conv.ovf.u1.un", 0x86, .none, .next⟩
  | .convOvfU2Un => ⟨"conv.ovf.u2.un", 0x87, .none, .next⟩
  | .convOvfU4Un => ⟨"conv.ovf.u4.un", 0x88, .none, .next⟩
  | .convOvfU8Un => ⟨"conv.ovf.u8.un", 0x89, .none, .next⟩
  | .convOvfIUn => ⟨"conv.ovf.i.un", 0x8A, .none, .next⟩
  | .convOvfUUn => ⟨"conv.ovf.u.un", 0x8B, .none, .next⟩
  | .box => ⟨"box", 0x8C, .type, .next⟩
  | .newarr => ⟨"newarr", 0x8D, .type, .next⟩
  | .ldlen => ⟨"ldlen", 0x8E, .none, .next⟩
  | .ldelema => ⟨"ldelema", 0x8F, .type, .next⟩
  | .ldelemI1 => ⟨"ldelem.i1", 0x90, .none, .next⟩
  | .ldelemU1 => ⟨"ldelem.u1", 0x91, .none, .next⟩
  | .ldelemI2 => ⟨"ldelem.i2", 0x92, .none, .next⟩
  | .ldelemU2 => ⟨"ldelem.u2", 0x93, .none, .next⟩
  | .ldelemI4 => ⟨"ldelem.i4", 0x94, .none, .next⟩
  | .ldelemU4 => ⟨"ldelem.u4", 0x95, .none, .next⟩
  | .ldelemI8 => ⟨"ldelem.i8", 0x96, .none, .next⟩
  | .ldelemI => ⟨"ldelem.i", 0x97, .none, .next⟩
  | .ldelemR4 => ⟨"ldelem.r4", 0x98, .none, .next⟩
  | .ldelemR8 => ⟨"ldelem.r8", 0x99, .none, .next⟩
  | .ldelemRef => ⟨"ldelem.ref", 0x9A, .none, .next⟩
  | .stelemI => ⟨"stelem.i", 0x9B, .none, .next⟩
  | .stelemI1 => ⟨"stelem.i1", 0x9C, .none, .next⟩
  | .stelemI2 => ⟨"stelem.i2", 0x9D, .none, .next⟩
  | .stelemI4 => ⟨"stelem.i4", 0x9E, .none, .next⟩
  | .stelemI8 => ⟨"stelem.i8", 0x9F, .none, .next⟩
  | .stelemR4 => ⟨"stelem.r4", 0xA0, .none, .next⟩
  | .stelemR8 => ⟨"stelem.r8", 0xA1, .none, .next⟩
  | .stelemRef => ⟨"stelem.ref", 0xA2, .none, .next⟩
  | .ldelem => ⟨"ldelem", 0xA3, .type, .next⟩
  | .stelem => ⟨"stelem", 0xA4, .type, .next⟩
  | .unboxAny => ⟨"unbox.any", 0xA5, .type, .next⟩
  | .convOvfI1 => ⟨"conv.ovf.i1", 0xB3, .none, .next⟩
  | .convOvfU1 => ⟨"conv.ovf.u1", 0xB4, .none, .next⟩
  | .convOvfI2 => ⟨"conv.ovf.i2", 0xB5, .none, .next⟩
  | .convOvfU2 => ⟨"conv.ovf.u2", 0xB6, .none, .next⟩
  | .convOvfI4 => ⟨"conv.ovf.i4", 0xB7, .none, .next⟩
  | .convOvfU4 => ⟨"conv.ovf.u4", 0xB8, .none, .next⟩
  | .convOvfI8 => ⟨"conv.ovf.i8", 0xB9, .none, .next⟩
  | .convOvfU8 => ⟨"conv.ovf.u8", 0xBA, .none, .next⟩
  | .refanyval => ⟨"refanyval", 0xC2, .type, .next⟩
  | .ckfinite => ⟨"ckfinite", 0xC3, .none, .next⟩
  | .mkrefany => ⟨"mkrefany", 0xC6, .type, .next⟩
  | .ldtoken => ⟨"ldtoken", 0xD0, .token, .next⟩
  | .convU2 => ⟨"conv.u2", 0xD1, .none, .next⟩
  | .convU1 => ⟨"conv.u1", 0xD2, .none, .next⟩
  | .convI => ⟨"conv.i", 0xD3, .none, .next⟩
  | .convOvfI => ⟨"conv.ovf.i", 0xD4, .none, .next⟩
  | .convOvfU => ⟨"conv.ovf.u", 0xD5, .none, .next⟩
  | .addOvf => ⟨"add.ovf", 0xD6, .none, .next⟩
  | .addOvfUn => ⟨"add.ovf.un", 0xD7, .none, .next⟩
  | .mulOvf => ⟨"mul.ovf", 0xD8, .none, .next⟩
  | .mulOvfUn => ⟨"mul.ovf.un", 0xD9, .none, .next⟩
  | .subOvf => ⟨"sub.ovf", 0xDA, .none, .next⟩
  | .subOvfUn => ⟨"sub.ovf.un", 0xDB, .none, .next⟩
  | .endfinally => ⟨"endfinally", 0xDC, .none, .leave⟩
  | .leave => ⟨"leave", 0xDD, .target, .branch⟩
  | .leaveS => ⟨"leave.s", 0xDE, .shortTarget, .branch⟩
  | .stindI => ⟨"stind.i", 0xDF, .none, .next⟩
  | .convU => ⟨"conv.u", 0xE0, .none, .next⟩
  | .arglist => ⟨"arglist", 0xFE00, .none, .next⟩
  | .ceq => ⟨"ceq", 0xFE01, .none, .next⟩
  | .cgt => ⟨"cgt", 0xFE02, .none, .next⟩
  | .cgtUn => ⟨"cgt.un", 0xFE03, .none, .next⟩
  | .clt => ⟨"clt", 0xFE04, .none, .next⟩
  | .cltUn => ⟨"clt.un", 0xFE05, .none, .next⟩
  | .ldftn => ⟨"ldftn", 0xFE06, .method, .next⟩
  | .ldvirtftn => ⟨"ldvirtftn", 0xFE07, .method, .next⟩
  | .ldarg => ⟨"ldarg", 0xFE09, .variable, .next⟩
  | .ldarga => ⟨"ldarga", 0xFE0A, .variable, .next⟩
  | .starg => ⟨"starg", 0xFE0B, .variable, .next⟩
  | .ldloc => ⟨"ldloc", 0xFE0C, .variable, .next⟩
  | .ldloca => ⟨"ldloca", 0xFE0D, .variable, .next⟩
  | .stloc => ⟨"stloc", 0xFE0E, .variable, .next⟩
  | .localloc => ⟨"localloc", 0xFE0F, .none, .next⟩
  | .endfilter => ⟨"endfilter", 0xFE11, .none, .leave⟩
  | .unaligned => ⟨"unaligned.", 0xFE12, .shortInt32, .modifier⟩
  | .volatile => ⟨"volatile.", 0xFE13, .none, .modifier⟩
  | .tail => ⟨"tail.", 0xFE14, .none, .modifier⟩
  | .initobj => ⟨"initobj", 0xFE15, .type, .next⟩
  | .constrained => ⟨"constrained.", 0xFE16, .type, .modifier⟩
  | .cpblk => ⟨"cpblk", 0xFE17, .none, .next⟩
  | .initblk => ⟨"initblk", 0xFE18, .none, .next⟩
  | .noCheck => ⟨"no.", 0xFE19, .shortInt32, .modifier⟩
  | .rethrow => ⟨"rethrow", 0xFE1A, .none, .raise⟩
  | .sizeof => ⟨"sizeof", 0xFE1C, .type, .next⟩
  | .refanytype => ⟨"refanytype", 0xFE1D, .none, .next⟩
  | .readonly => ⟨"readonly.", 0xFE1E, .none, .modifier⟩

/-- The name in listings, such as `ldc.i4.s`. -/
def mnemonic (op : Opcode) : String := op.spec.mnemonic

/-- The encoded value; a two-byte opcode has the prefix in its high byte. -/
def value (op : Opcode) : UInt16 := op.spec.value

/-- The shape of the operand. -/
def kind (op : Opcode) : OperandKind := op.spec.kind

/-- The effect on the program counter. -/
def flow (op : Opcode) : FlowClass := op.spec.flow

end Opcode

end ManagedCode
