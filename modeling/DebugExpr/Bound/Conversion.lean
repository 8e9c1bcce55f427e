import DebugExpr.Bound.Scope

/-! Conversions between types. A conversion is implicit or needs a cast; an integer constant also
becomes a constant of any integral type in whose range it lies. -/
namespace DebugExpr.Bound
open Metadata

/-- The numeric type that a type is. -/
def numeric? (type : ClosedType) : Option Primitive :=
  type.primitive?.filter (·.isNumeric)

/-- The least and the greatest value of an integral type. Native integers have no fixed range. -/
def valueRange? : Primitive → Option (Int × Int)
  | .int8 => some (-0x80, 0x7F)
  | .uint8 => some (0, 0xFF)
  | .int16 => some (-0x8000, 0x7FFF)
  | .uint16 | .char => some (0, 0xFFFF)
  | .int32 => some (-0x80000000, 0x7FFFFFFF)
  | .uint32 => some (0, 0xFFFFFFFF)
  | .int64 => some (-0x8000000000000000, 0x7FFFFFFFFFFFFFFF)
  | .uint64 => some (0, 0xFFFFFFFFFFFFFFFF)
  | _ => none

/-- The value lies in the range of the integral type. -/
def inRange (p : Primitive) (value : Int) : Bool :=
  (valueRange? p).any fun (least, greatest) => least ≤ value && value ≤ greatest

/-- The numeric types that a numeric type becomes without a cast. -/
def widenings : Primitive → List Primitive
  | .int8 => [.int16, .int32, .int64, .float32, .float64]
  | .uint8 => [.int16, .uint16, .int32, .uint32, .int64, .uint64, .float32, .float64]
  | .int16 => [.int32, .int64, .float32, .float64]
  | .uint16 => [.int32, .uint32, .int64, .uint64, .float32, .float64]
  | .char => [.uint16, .int32, .uint32, .int64, .uint64, .float32, .float64]
  | .int32 => [.int64, .float32, .float64]
  | .uint32 => [.int64, .uint64, .float32, .float64]
  | .int64 => [.float32, .float64]
  | .uint64 => [.float32, .float64]
  | .float32 => [.float64]
  | _ => []

/-- How one type becomes another. -/
inductive Convertible where
  | no
  /-- The types are the same and nothing has to be done. -/
  | same
  | via (conversion : Conversion)
  deriving DecidableEq, Repr

namespace Convertible

/-- The conversion if the condition holds. -/
def when (condition : Bool) (conversion : Conversion) : Convertible :=
  if condition then via conversion else no

end Convertible

/-- The value of an integer constant, read by the type's sign. -/
def integerValue? : Term → Option Int
  | .constant (.int32 value) type =>
    if type.primitive? = some .uint32 then some value.toUInt32.toNat else some value.toInt
  | .constant (.int64 value) type =>
    if type.primitive? = some .uint64 then some value.toUInt64.toNat else some value.toInt
  | _ => none

namespace Scope

/-- An integer constant of an integral type, held in as many bits as the type needs on the stack. -/
def integerTerm (s : Scope) (value : Int) (p : Primitive) : Except Error Term := do
  let type ← s.snapshot.primitive p
  if p = .int64 ∨ p = .uint64 then return .constant (.int64 (Int64.ofInt value)) type
  else return .constant (.int32 (Int32.ofInt value)) type

/-- An integer constant as one of the target's type, if its value lies in range. -/
def refit (s : Scope) (t : Term) (target : ClosedType) : Except Error (Option Term) :=
  match integerValue? t, target.primitive? with
  | some value, some p =>
    if inRange p value then do return some (← s.integerTerm value p) else .ok none
  | _, _ => .ok none

def inherits (s : Scope) (derived base : ClosedType) : Except Error Bool :=
  s.snapshot.inheritsFrom derived base s.config.maxInheritanceDepth

/-- Converts a value type: into a reference to the root class, to a base class, or by a cast to an
interface. -/
def convertibleValue (s : Scope) (source target : ClosedType) (explicit : Bool) :
    Except Error Convertible := do
  if !target.isReferenceType then return .no
  if target.isObject then return .via .boxing
  if ← s.inherits source target then return .via .boxing
  return .when (explicit && target.isInterface) .boxing

/-- Converts one reference into another: up the chain of base types, or by a cast down or across an
interface. -/
def convertibleReference (s : Scope) (source target : ClosedType) (explicit : Bool) :
    Except Error Convertible := do
  if target.isObject then return .via .implicitReference
  if ← s.inherits source target then return .via .implicitReference
  if !explicit then return .no
  if target.isInterface || source.isInterface then return .via .explicitReference
  return .when (← s.inherits target source) .explicitReference

/-- Converts a reference into a value type, by a cast alone. -/
def convertibleBoxed (s : Scope) (source target : ClosedType) (explicit : Bool) :
    Except Error Convertible := do
  if !explicit then return .no
  if source.isInterface then return .via .unboxing
  return .when (← s.inherits target source) .unboxing

/-- How a type becomes another, by a cast or without one. A term without a type is taken for the
null literal. -/
def convertible (s : Scope) (source : Option ClosedType) (target : ClosedType) (explicit : Bool) :
    Except Error Convertible :=
  match source with
  | none => .ok (.when target.isReferenceType .nullLiteral)
  | some source =>
    if source == target then .ok .same
    else
      match numeric? source, numeric? target with
      | some narrow, some wide =>
        .ok (.when (explicit || (widenings narrow).contains wide) (.numeric wide))
      | _, _ =>
        if source.isValueType then s.convertibleValue source target explicit
        else if target.isReferenceType then s.convertibleReference source target explicit
        else s.convertibleBoxed source target explicit

/-- Converts a term if there is a conversion. -/
def convert? (s : Scope) (t : Term) (target : ClosedType) (explicit : Bool) :
    Except Error (Option Term) := do
  match ← s.refit t target with
  | some constant => return some constant
  | none =>
    match ← s.convertible t.type? target explicit with
    | .no => return none
    | .same => return some t
    | .via conversion => return some (.conversion conversion t target)

/-- Converts a term. -/
def convert (s : Scope) (t : Term) (target : ClosedType) (explicit : Bool) : Except Error Term := do
  match ← s.convert? t target explicit with
  | some converted => return converted
  | none => throw (.noConversion t.typeName target.display)

/-- The small integral types, on which arithmetic is that of `int`. -/
def isPromoted : Primitive → Bool
  | .int8 | .uint8 | .int16 | .uint16 | .char => true
  | _ => false

/-- Makes an operand of a small integral type one of `int`. -/
def promote (s : Scope) (t : Term) : Except Error Term :=
  if (t.type?.bind numeric?).any isPromoted then do
    s.convert t (← s.snapshot.primitive .int32) false
  else .ok t

end Scope

end DebugExpr.Bound
