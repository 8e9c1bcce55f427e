import DebugExpr.Code.Opcode
import DebugExpr.Text.Quoted

/-! Operands of instructions. Members and types stay symbolic: they are the text that a listing
shows. -/
namespace DebugExpr.Code
open Text

/-- A branch target, numbered in the order of creation. -/
structure Label where
  id : Nat
  deriving DecidableEq, Repr, Inhabited

def Label.display (label : Label) : String :=
  s!"L_{label.id}"

inductive Operand where
  | none
  | int8 (value : Int8)
  | int32 (value : Int32)
  | int64 (value : Int64)
  | string (value : String)
  /-- A method, a field or a type, as a listing shows it. -/
  | member (text : String)
  | localSlot (index : Nat)
  | argumentSlot (index : Nat)
  /-- A branch target that has no offset yet. -/
  | label (label : Label)
  /-- The offset of a branch target. -/
  | target (offset : Nat)
  deriving DecidableEq

namespace Operand

/-- The operand can be encoded as the kind asks. Branch targets are encoded by the layout alone. -/
def fits : Operand → OperandKind → Bool
  | none, .none => true
  | int8 _, .int8 => true
  | int32 _, .int32 => true
  | int64 _, .int64 => true
  | string _, .string => true
  | member _, .token => true
  | localSlot _, .variable8 | localSlot _, .variable16 => true
  | argumentSlot _, .variable8 | argumentSlot _, .variable16 => true
  | _, _ => false

/-- The operand in a listing. A 64-bit constant shows its two's complement in hexadecimal digits,
and a string is not escaped. -/
def display : Operand → String
  | none => ""
  | int8 value => toString value.toInt
  | int32 value => toString value.toInt
  | int64 value => "0x" ++ hex 1 value.toUInt64.toNat
  | string value => s!"\"{value}\""
  | member text => s!"\"{text}\""
  | localSlot index => s!"V_{index}"
  | argumentSlot index => s!"V_{index}"
  | label l => l.display
  | target offset => "IL_" ++ hex 4 offset

/-- The operand with its kind, for diagnostics. -/
def describe : Operand → String
  | none => "None"
  | int8 value => s!"Int8({value.toInt})"
  | int32 value => s!"Int32({value.toInt})"
  | int64 value => s!"Int64({value.toInt})"
  | string value => s!"String({quoted value})"
  | member text => s!"Member({quoted text})"
  | localSlot index => s!"Local({index})"
  | argumentSlot index => s!"Argument({index})"
  | label l => s!"Label(Label({l.id}))"
  | target offset => s!"Target({offset})"

end Operand

end DebugExpr.Code
