import DebugExpr.Text.Digits

/-! Names for definitions inside a snapshot of loaded modules: the position of a module in the
snapshot and the token of a type definition in its module. -/
namespace DebugExpr.Metadata
open Text

/-- Position of a module in its snapshot, in load order. -/
structure ModuleId where
  index : Nat
  deriving DecidableEq, Repr, Inhabited

def ModuleId.display (id : ModuleId) : String :=
  s!"module#{id.index}"

/-- A metadata token: the table in the high byte, the row, from one on, in the low three. -/
structure Token where
  value : UInt32
  deriving DecidableEq, Repr, Inhabited

namespace Token

def typeDefinitionTable : UInt8 := 0x02

def rowMask : UInt32 := 0x00FFFFFF

/-- The type definition in a row, of which the low twenty-four bits count. -/
def typeDefinition (row : UInt32) : Token :=
  ⟨typeDefinitionTable.toUInt32 <<< 24 ||| (row &&& rowMask)⟩

def table (t : Token) : UInt8 :=
  (t.value >>> 24).toUInt8

def row (t : Token) : UInt32 :=
  t.value &&& rowMask

/-- No row is named yet. -/
def isNull (t : Token) : Bool :=
  t.row == 0

def display (t : Token) : String :=
  "0x" ++ hex 8 t.value.toNat

/-- The token together with its row, for diagnostics. -/
def describe (t : Token) : String :=
  s!"Token({t.display}, row {t.row})"

end Token

end DebugExpr.Metadata
