import DebugExpr.Code.Opcode
import DebugExpr.Metadata.Primitive
import DebugExpr.Source.Expr

/-! The instructions that depend on the type they work on: loads and stores through references,
array elements, arithmetic, and conversions between numeric types. -/
namespace DebugExpr.Code
open Metadata Source

/-- Load through a managed reference. -/
def loadIndirect : Primitive → Opcode
  | .boolean | .uint8 => .ldindU1
  | .char | .uint16 => .ldindU2
  | .int8 => .ldindI1
  | .int16 => .ldindI2
  | .int32 => .ldindI4
  | .uint32 => .ldindU4
  | .int64 | .uint64 => .ldindI8
  | .float32 => .ldindR4
  | .float64 => .ldindR8
  | .nativeInt | .nativeUInt => .ldindI
  | .object | .string => .ldindRef

/-- Store through a managed reference. There is no instruction for native integers. -/
def storeIndirect? : Primitive → Option Opcode
  | .boolean | .int8 | .uint8 => some .stindI1
  | .char | .int16 | .uint16 => some .stindI2
  | .int32 | .uint32 => some .stindI4
  | .int64 | .uint64 => some .stindI8
  | .float32 => some .stindR4
  | .float64 => some .stindR8
  | .nativeInt | .nativeUInt => none
  | .object | .string => some .stindRef

/-- The mnemonic of a store through a managed reference. That of native integers is only a name. -/
def storeIndirectMnemonic (p : Primitive) : String :=
  ((storeIndirect? p).map Opcode.mnemonic).getD "stind.i"

/-- Load of an array element. -/
def loadElement : Primitive → Opcode
  | .boolean | .uint8 => .ldelemU1
  | .char | .uint16 => .ldelemU2
  | .int8 => .ldelemI1
  | .int16 => .ldelemI2
  | .int32 => .ldelemI4
  | .uint32 => .ldelemU4
  | .int64 | .uint64 => .ldelemI8
  | .float32 => .ldelemR4
  | .float64 => .ldelemR8
  | .nativeInt | .nativeUInt => .ldelemI
  | .object | .string => .ldelemRef

/-- Store to an array element. -/
def storeElement : Primitive → Opcode
  | .boolean | .int8 | .uint8 => .stelemI1
  | .char | .int16 | .uint16 => .stelemI2
  | .int32 | .uint32 => .stelemI4
  | .int64 | .uint64 => .stelemI8
  | .float32 => .stelemR4
  | .float64 => .stelemR8
  | .nativeInt | .nativeUInt => .stelemI
  | .object | .string => .stelemRef

/-- The instruction of an operator. Division alone tells unsigned operands apart. -/
def arithmetic (op : BinaryOp) (isUnsigned : Bool) : Opcode :=
  match op with
  | .add => .add
  | .subtract => .sub
  | .multiply => .mul
  | .divide => if isUnsigned then .divUn else .div

/-- Bytes of a value; native integers count as the wide ones. -/
def width : Primitive → Nat
  | .boolean | .int8 | .uint8 => 1
  | .char | .int16 | .uint16 => 2
  | .int32 | .uint32 | .float32 => 4
  | _ => 8

def isFloat : Primitive → Bool
  | .float32 | .float64 => true
  | _ => false

/-- A value of the first type is one of the second, which is small, as it stands on the stack. -/
def fitsSmall (source target : Primitive) : Bool :=
  !isFloat source && width source < width target && (source.isUnsigned || !target.isUnsigned)

/-- Conversion of a value on the stack to a small integral type. -/
def convertSmall (source target : Primitive) (op : Opcode) : Option Opcode :=
  if fitsSmall source target then none else some op

/-- Conversion of a value on the stack from one numeric type to another, if anything has to be done.
-/
def convertNumeric? (source target : Primitive) : Option Opcode :=
  if source = target then none
  else
    match target with
    | .float64 => if source.isUnsigned then some .convRUn else some .convR8
    | .float32 => some .convR4
    | .int64 =>
      if source = .uint64 then none
      else if source.isUnsigned then some .convU8
      else some .convI8
    | .uint64 =>
      if source = .int64 then none
      else if source.isUnsigned || isFloat source then some .convU8
      else some .convI8
    | .int32 => if width source ≤ 4 && !isFloat source then none else some .convI4
    | .uint32 => if width source ≤ 4 && !isFloat source then none else some .convU4
    | .nativeInt =>
      if isFloat source || width source = 8 then some .convI
      else if source.isUnsigned then some .convU
      else some .convI
    | .nativeUInt => some .convU
    | .int8 => convertSmall source target .convI1
    | .uint8 => convertSmall source target .convU1
    | .int16 => convertSmall source target .convI2
    | .uint16 | .char => convertSmall source target .convU2
    | .boolean | .object | .string => none

end DebugExpr.Code
