/-! The built-in types: those that the language spells with a keyword, and the native integers. Only
the core library's definitions are marked as built in; a type of the same name elsewhere is not. -/
namespace DebugExpr.Metadata

inductive Primitive where
  | boolean | char
  | int8 | uint8 | int16 | uint16 | int32 | uint32 | int64 | uint64
  | float32 | float64
  | nativeInt | nativeUInt
  | object | string
  deriving DecidableEq, Repr, Inhabited

namespace Primitive

def all : List Primitive :=
  [boolean, char, int8, uint8, int16, uint16, int32, uint32, int64, uint64, float32, float64,
    nativeInt, nativeUInt, object, string]

theorem mem_all (p : Primitive) : p ∈ all := by
  cases p <;> decide

/-- The name of the type in metadata. -/
def fullName : Primitive → String
  | boolean => "System.Boolean"
  | char => "System.Char"
  | int8 => "System.SByte"
  | uint8 => "System.Byte"
  | int16 => "System.Int16"
  | uint16 => "System.UInt16"
  | int32 => "System.Int32"
  | uint32 => "System.UInt32"
  | int64 => "System.Int64"
  | uint64 => "System.UInt64"
  | float32 => "System.Single"
  | float64 => "System.Double"
  | nativeInt => "System.IntPtr"
  | nativeUInt => "System.UIntPtr"
  | object => "System.Object"
  | string => "System.String"

/-- The keyword of the language; native integers have none. -/
def keyword? : Primitive → Option String
  | boolean => some "bool"
  | char => some "char"
  | int8 => some "sbyte"
  | uint8 => some "byte"
  | int16 => some "short"
  | uint16 => some "ushort"
  | int32 => some "int"
  | uint32 => some "uint"
  | int64 => some "long"
  | uint64 => some "ulong"
  | float32 => some "float"
  | float64 => some "double"
  | nativeInt => none
  | nativeUInt => none
  | object => some "object"
  | string => some "string"

def ofFullName? (name : String) : Option Primitive :=
  all.find? (·.fullName == name)

def ofKeyword? (keyword : String) : Option Primitive :=
  all.find? (·.keyword? == some keyword)

/-- The keyword, or the metadata name of a type without one. -/
def display (p : Primitive) : String :=
  p.keyword?.getD p.fullName

/-- All but `object` and `string` hold their value in place. -/
def isValueType : Primitive → Bool
  | object | string => false
  | _ => true

/-- Takes part in arithmetic. -/
def isNumeric : Primitive → Bool
  | boolean | object | string => false
  | _ => true

def isUnsigned : Primitive → Bool
  | char | uint8 | uint16 | uint32 | uint64 | nativeUInt => true
  | _ => false

end Primitive

end DebugExpr.Metadata
