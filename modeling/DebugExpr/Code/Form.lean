import DebugExpr.Code.Operand

/-! Instructions whose form depends on a number. A 32-bit constant and the index of a variable are
written in the shortest form that holds them. -/
namespace DebugExpr.Code

/-- An instruction with its operand. -/
structure Form where
  opcode : Opcode
  operand : Operand := .none
  deriving DecidableEq

namespace Form

/-- Pushes a 32-bit constant. -/
def int32 (value : Int32) : Form :=
  if value = -1 then ⟨.ldcI4M1, .none⟩
  else if value = 0 then ⟨.ldcI40, .none⟩
  else if value = 1 then ⟨.ldcI41, .none⟩
  else if value = 2 then ⟨.ldcI42, .none⟩
  else if value = 3 then ⟨.ldcI43, .none⟩
  else if value = 4 then ⟨.ldcI44, .none⟩
  else if value = 5 then ⟨.ldcI45, .none⟩
  else if value = 6 then ⟨.ldcI46, .none⟩
  else if value = 7 then ⟨.ldcI47, .none⟩
  else if value = 8 then ⟨.ldcI48, .none⟩
  else if -128 ≤ value ∧ value ≤ 127 then ⟨.ldcI4S, .int8 value.toInt8⟩
  else ⟨.ldcI4, .int32 value⟩

/-- Pushes a 64-bit constant. -/
def int64 (value : Int64) : Form :=
  ⟨.ldcI8, .int64 value⟩

/-- Accesses a variable: by a form without operand if the index has one, else by the form with an
index of one byte or of two. -/
def slot (forms : List Opcode) (byteForm wordForm : Opcode) (operand : Operand) (index : Nat) :
    Form :=
  match forms[index]? with
  | some op => ⟨op, .none⟩
  | none => if index < UInt8.size then ⟨byteForm, operand⟩ else ⟨wordForm, operand⟩

def loadLocal (index : Nat) : Form :=
  slot [.ldloc0, .ldloc1, .ldloc2, .ldloc3] .ldlocS .ldloc (.localSlot index) index

def storeLocal (index : Nat) : Form :=
  slot [.stloc0, .stloc1, .stloc2, .stloc3] .stlocS .stloc (.localSlot index) index

def loadLocalAddress (index : Nat) : Form :=
  slot [] .ldlocaS .ldloca (.localSlot index) index

def loadArgument (index : Nat) : Form :=
  slot [.ldarg0, .ldarg1, .ldarg2, .ldarg3] .ldargS .ldarg (.argumentSlot index) index

def storeArgument (index : Nat) : Form :=
  slot [] .stargS .starg (.argumentSlot index) index

def loadArgumentAddress (index : Nat) : Form :=
  slot [] .ldargaS .ldarga (.argumentSlot index) index

end Form

end DebugExpr.Code
