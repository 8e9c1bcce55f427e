/-! The instructions that expressions compile to, with the description of each: its encoding, what
it takes from and leaves on the evaluation stack, and where control goes after it. -/
namespace DebugExpr.Code

/-- How the operand of an instruction is encoded. -/
inductive OperandKind where
  | none
  | int8
  | int32
  | int64
  /-- Token of a string literal. -/
  | string
  /-- Token of a member or type. -/
  | token
  /-- Signed displacement in one byte. -/
  | branch8
  /-- Signed displacement in four bytes. -/
  | branch32
  /-- Index of a local or an argument in one byte. -/
  | variable8
  /-- Index of a local or an argument in two bytes. -/
  | variable16
  deriving DecidableEq, Repr

/-- Bytes of the encoded operand. -/
def OperandKind.size : OperandKind → Nat
  | none => 0
  | int8 | branch8 | variable8 => 1
  | variable16 => 2
  | int32 | string | token | branch32 => 4
  | int64 => 8

/-- What an instruction takes from the evaluation stack and leaves on it. -/
inductive StackEffect where
  | fixed (pops pushes : Nat)
  /-- Depends on the operand; who emits the instruction says it. -/
  | byCaller
  deriving DecidableEq, Repr

/-- Where control goes after an instruction. -/
inductive Flow where
  | next
  | branch
  | conditionalBranch
  | ret
  deriving DecidableEq, Repr

inductive Opcode where
  | nop | ldarg0 | ldarg1 | ldarg2 | ldarg3 | ldloc0 | ldloc1 | ldloc2 | ldloc3 | stloc0 | stloc1
  | stloc2 | stloc3 | ldargS | ldargaS | stargS | ldlocS | ldlocaS | stlocS | ldnull | ldcI4M1
  | ldcI40 | ldcI41 | ldcI42 | ldcI43 | ldcI44 | ldcI45 | ldcI46 | ldcI47 | ldcI48 | ldcI4S
  | ldcI4 | ldcI8 | dup | pop | call | ret | brS | brfalseS | brtrueS | br | brfalse | brtrue
  | ldindI1 | ldindU1 | ldindI2 | ldindU2 | ldindI4 | ldindU4 | ldindI8 | ldindI | ldindR4
  | ldindR8 | ldindRef | stindRef | stindI1 | stindI2 | stindI4 | stindI8 | stindR4 | stindR8
  | add | sub | mul | div | divUn | neg | convI1 | convI2 | convI4 | convI8 | convR4 | convR8
  | convU4 | convU8 | callvirt | ldobj | ldstr | castclass | isinst | convRUn | ldfld | ldflda
  | stfld | ldsfld | ldsflda | stsfld | stobj | box | ldelema | ldelemI1 | ldelemU1 | ldelemI2
  | ldelemU2 | ldelemI4 | ldelemU4 | ldelemI8 | ldelemI | ldelemR4 | ldelemR8 | ldelemRef
  | stelemI | stelemI1 | stelemI2 | stelemI4 | stelemI8 | stelemR4 | stelemR8 | stelemRef
  | ldelem | stelem | unboxAny | convU2 | convU1 | convI | convU | ldarg | ldarga | starg | ldloc
  | ldloca | stloc
  deriving DecidableEq

/-- The description of an instruction. -/
structure Opcode.Info where
  mnemonic : String
  /-- The encoded value; the first of two bytes stands in the high byte. -/
  code : UInt16
  operand : OperandKind
  effect : StackEffect
  flow : Flow

namespace Opcode

/-- An instruction with a fixed effect after which control goes on. -/
def straight (mnemonic : String) (code : UInt16) (operand : OperandKind) (pops pushes : Nat) :
    Info :=
  ⟨mnemonic, code, operand, .fixed pops pushes, .next⟩

def info : Opcode → Info
  | nop => straight "nop" 0x00 .none 0 0
  | ldarg0 => straight "ldarg.0" 0x02 .none 0 1
  | ldarg1 => straight "ldarg.1" 0x03 .none 0 1
  | ldarg2 => straight "ldarg.2" 0x04 .none 0 1
  | ldarg3 => straight "ldarg.3" 0x05 .none 0 1
  | ldloc0 => straight "ldloc.0" 0x06 .none 0 1
  | ldloc1 => straight "ldloc.1" 0x07 .none 0 1
  | ldloc2 => straight "ldloc.2" 0x08 .none 0 1
  | ldloc3 => straight "ldloc.3" 0x09 .none 0 1
  | stloc0 => straight "stloc.0" 0x0A .none 1 0
  | stloc1 => straight "stloc.1" 0x0B .none 1 0
  | stloc2 => straight "stloc.2" 0x0C .none 1 0
  | stloc3 => straight "stloc.3" 0x0D .none 1 0
  | ldargS => straight "ldarg.s" 0x0E .variable8 0 1
  | ldargaS => straight "ldarga.s" 0x0F .variable8 0 1
  | stargS => straight "starg.s" 0x10 .variable8 1 0
  | ldlocS => straight "ldloc.s" 0x11 .variable8 0 1
  | ldlocaS => straight "ldloca.s" 0x12 .variable8 0 1
  | stlocS => straight "stloc.s" 0x13 .variable8 1 0
  | ldnull => straight "ldnull" 0x14 .none 0 1
  | ldcI4M1 => straight "ldc.i4.m1" 0x15 .none 0 1
  | ldcI40 => straight "ldc.i4.0" 0x16 .none 0 1
  | ldcI41 => straight "ldc.i4.1" 0x17 .none 0 1
  | ldcI42 => straight "ldc.i4.2" 0x18 .none 0 1
  | ldcI43 => straight "ldc.i4.3" 0x19 .none 0 1
  | ldcI44 => straight "ldc.i4.4" 0x1A .none 0 1
  | ldcI45 => straight "ldc.i4.5" 0x1B .none 0 1
  | ldcI46 => straight "ldc.i4.6" 0x1C .none 0 1
  | ldcI47 => straight "ldc.i4.7" 0x1D .none 0 1
  | ldcI48 => straight "ldc.i4.8" 0x1E .none 0 1
  | ldcI4S => straight "ldc.i4.s" 0x1F .int8 0 1
  | ldcI4 => straight "ldc.i4" 0x20 .int32 0 1
  | ldcI8 => straight "ldc.i8" 0x21 .int64 0 1
  | dup => straight "dup" 0x25 .none 1 2
  | pop => straight "pop" 0x26 .none 1 0
  | call => ⟨"call", 0x28, .token, .byCaller, .next⟩
  | ret => ⟨"ret", 0x2A, .none, .byCaller, .ret⟩
  | brS => ⟨"br.s", 0x2B, .branch8, .fixed 0 0, .branch⟩
  | brfalseS => ⟨"brfalse.s", 0x2C, .branch8, .fixed 1 0, .conditionalBranch⟩
  | brtrueS => ⟨"brtrue.s", 0x2D, .branch8, .fixed 1 0, .conditionalBranch⟩
  | br => ⟨"br", 0x38, .branch32, .fixed 0 0, .branch⟩
  | brfalse => ⟨"brfalse", 0x39, .branch32, .fixed 1 0, .conditionalBranch⟩
  | brtrue => ⟨"brtrue", 0x3A, .branch32, .fixed 1 0, .conditionalBranch⟩
  | ldindI1 => straight "ldind.i1" 0x46 .none 1 1
  | ldindU1 => straight "ldind.u1" 0x47 .none 1 1
  | ldindI2 => straight "ldind.i2" 0x48 .none 1 1
  | ldindU2 => straight "ldind.u2" 0x49 .none 1 1
  | ldindI4 => straight "ldind.i4" 0x4A .none 1 1
  | ldindU4 => straight "ldind.u4" 0x4B .none 1 1
  | ldindI8 => straight "ldind.i8" 0x4C .none 1 1
  | ldindI => straight "ldind.i" 0x4D .none 1 1
  | ldindR4 => straight "ldind.r4" 0x4E .none 1 1
  | ldindR8 => straight "ldind.r8" 0x4F .none 1 1
  | ldindRef => straight "ldind.ref" 0x50 .none 1 1
  | stindRef => straight "stind.ref" 0x51 .none 2 0
  | stindI1 => straight "stind.i1" 0x52 .none 2 0
  | stindI2 => straight "stind.i2" 0x53 .none 2 0
  | stindI4 => straight "stind.i4" 0x54 .none 2 0
  | stindI8 => straight "stind.i8" 0x55 .none 2 0
  | stindR4 => straight "stind.r4" 0x56 .none 2 0
  | stindR8 => straight "stind.r8" 0x57 .none 2 0
  | add => straight "add" 0x58 .none 2 1
  | sub => straight "sub" 0x59 .none 2 1
  | mul => straight "mul" 0x5A .none 2 1
  | div => straight "div" 0x5B .none 2 1
  | divUn => straight "div.un" 0x5C .none 2 1
  | neg => straight "neg" 0x65 .none 1 1
  | convI1 => straight "conv.i1" 0x67 .none 1 1
  | convI2 => straight "conv.i2" 0x68 .none 1 1
  | convI4 => straight "conv.i4" 0x69 .none 1 1
  | convI8 => straight "conv.i8" 0x6A .none 1 1
  | convR4 => straight "conv.r4" 0x6B .none 1 1
  | convR8 => straight "conv.r8" 0x6C .none 1 1
  | convU4 => straight "conv.u4" 0x6D .none 1 1
  | convU8 => straight "conv.u8" 0x6E .none 1 1
  | callvirt => ⟨"callvirt", 0x6F, .token, .byCaller, .next⟩
  | ldobj => straight "ldobj" 0x71 .token 1 1
  | ldstr => straight "ldstr" 0x72 .string 0 1
  | castclass => straight "castclass" 0x74 .token 1 1
  | isinst => straight "isinst" 0x75 .token 1 1
  | convRUn => straight "conv.r.un" 0x76 .none 1 1
  | ldfld => straight "ldfld" 0x7B .token 1 1
  | ldflda => straight "ldflda" 0x7C .token 1 1
  | stfld => straight "stfld" 0x7D .token 2 0
  | ldsfld => straight "ldsfld" 0x7E .token 0 1
  | ldsflda => straight "ldsflda" 0x7F .token 0 1
  | stsfld => straight "stsfld" 0x80 .token 1 0
  | stobj => straight "stobj" 0x81 .token 2 0
  | box => straight "box" 0x8C .token 1 1
  | ldelema => straight "ldelema" 0x8F .token 2 1
  | ldelemI1 => straight "ldelem.i1" 0x90 .none 2 1
  | ldelemU1 => straight "ldelem.u1" 0x91 .none 2 1
  | ldelemI2 => straight "ldelem.i2" 0x92 .none 2 1
  | ldelemU2 => straight "ldelem.u2" 0x93 .none 2 1
  | ldelemI4 => straight "ldelem.i4" 0x94 .none 2 1
  | ldelemU4 => straight "ldelem.u4" 0x95 .none 2 1
  | ldelemI8 => straight "ldelem.i8" 0x96 .none 2 1
  | ldelemI => straight "ldelem.i" 0x97 .none 2 1
  | ldelemR4 => straight "ldelem.r4" 0x98 .none 2 1
  | ldelemR8 => straight "ldelem.r8" 0x99 .none 2 1
  | ldelemRef => straight "ldelem.ref" 0x9A .none 2 1
  | stelemI => straight "stelem.i" 0x9B .none 3 0
  | stelemI1 => straight "stelem.i1" 0x9C .none 3 0
  | stelemI2 => straight "stelem.i2" 0x9D .none 3 0
  | stelemI4 => straight "stelem.i4" 0x9E .none 3 0
  | stelemI8 => straight "stelem.i8" 0x9F .none 3 0
  | stelemR4 => straight "stelem.r4" 0xA0 .none 3 0
  | stelemR8 => straight "stelem.r8" 0xA1 .none 3 0
  | stelemRef => straight "stelem.ref" 0xA2 .none 3 0
  | ldelem => straight "ldelem" 0xA3 .token 2 1
  | stelem => straight "stelem" 0xA4 .token 3 0
  | unboxAny => straight "unbox.any" 0xA5 .token 1 1
  | convU2 => straight "conv.u2" 0xD1 .none 1 1
  | convU1 => straight "conv.u1" 0xD2 .none 1 1
  | convI => straight "conv.i" 0xD3 .none 1 1
  | convU => straight "conv.u" 0xE0 .none 1 1
  | ldarg => straight "ldarg" 0xFE09 .variable16 0 1
  | ldarga => straight "ldarga" 0xFE0A .variable16 0 1
  | starg => straight "starg" 0xFE0B .variable16 1 0
  | ldloc => straight "ldloc" 0xFE0C .variable16 0 1
  | ldloca => straight "ldloca" 0xFE0D .variable16 0 1
  | stloc => straight "stloc" 0xFE0E .variable16 1 0

/-- Every instruction, by ascending encoded value. -/
def all : List Opcode := [
  nop, ldarg0, ldarg1, ldarg2, ldarg3, ldloc0, ldloc1, ldloc2, ldloc3, stloc0, stloc1, stloc2,
  stloc3, ldargS, ldargaS, stargS, ldlocS, ldlocaS, stlocS, ldnull, ldcI4M1, ldcI40, ldcI41,
  ldcI42, ldcI43, ldcI44, ldcI45, ldcI46, ldcI47, ldcI48, ldcI4S, ldcI4, ldcI8, dup, pop, call,
  ret, brS, brfalseS, brtrueS, br, brfalse, brtrue, ldindI1, ldindU1, ldindI2, ldindU2, ldindI4,
  ldindU4, ldindI8, ldindI, ldindR4, ldindR8, ldindRef, stindRef, stindI1, stindI2, stindI4,
  stindI8, stindR4, stindR8, add, sub, mul, div, divUn, neg, convI1, convI2, convI4, convI8,
  convR4, convR8, convU4, convU8, callvirt, ldobj, ldstr, castclass, isinst, convRUn, ldfld,
  ldflda, stfld, ldsfld, ldsflda, stsfld, stobj, box, ldelema, ldelemI1, ldelemU1, ldelemI2,
  ldelemU2, ldelemI4, ldelemU4, ldelemI8, ldelemI, ldelemR4, ldelemR8, ldelemRef, stelemI,
  stelemI1, stelemI2, stelemI4, stelemI8, stelemR4, stelemR8, stelemRef, ldelem, stelem,
  unboxAny, convU2, convU1, convI, convU, ldarg, ldarga, starg, ldloc, ldloca, stloc]

def mnemonic (op : Opcode) : String :=
  op.info.mnemonic

def code (op : Opcode) : UInt16 :=
  op.info.code

def operand (op : Opcode) : OperandKind :=
  op.info.operand

/-- Bytes of the encoded instruction, operand included. -/
def size (op : Opcode) : Nat :=
  (if op.code > 0xFF then 2 else 1) + op.operand.size

def ofMnemonic? (mnemonic : String) : Option Opcode :=
  all.find? (·.mnemonic == mnemonic)

end Opcode

end DebugExpr.Code
