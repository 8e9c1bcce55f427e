import DebugExpr.Code.Operand
import DebugExpr.Metadata.ClosedType

/-! Finished method bodies and their listings. -/
namespace DebugExpr.Code
open Text Metadata

/-- An instruction at its place. -/
structure Instruction where
  offset : Nat
  opcode : Opcode
  /-- The operand; a branch target is an offset. -/
  operand : Operand
  deriving DecidableEq

structure MethodBody where
  instructions : List Instruction
  maxStack : Nat
  /-- Local slots, those of the suspended method first. -/
  locals : List ClosedType
  /-- Bytes of code. -/
  codeSize : Nat
  /-- Absent for a method that returns nothing. -/
  returnType : Option ClosedType

/-- The text with blanks behind it up to the width. -/
def padRight (width : Nat) (s : String) : String :=
  String.ofList (s.toList.rightpad width ' ')

/-- The text with blanks in front up to the width. -/
def padLeft (width : Nat) (s : String) : String :=
  String.ofList (s.toList.leftpad width ' ')

def Instruction.display (i : Instruction) : String :=
  let place := "IL_" ++ hex 4 i.offset ++ ":  "
  if i.operand = .none then place ++ i.opcode.mnemonic
  else place ++ padRight 10 i.opcode.mnemonic ++ " " ++ i.operand.display

namespace MethodBody

/-- The line of the local slots, each on a line of its own under the first. -/
def localLines (locals : List ClosedType) : List String :=
  if locals.isEmpty then []
  else
    let slots := locals.mapIdx fun i type => s!"{type.display} V_{i}"
    ["  .locals init (" ++ ",\n                ".intercalate slots ++ ")"]

/-- The listing of the method. -/
def listing (m : MethodBody) : String :=
  "\n".intercalate <|
    ["\x7b",
      s!"  // Code size {padLeft 8 (toString m.codeSize)} (0x{hex 1 m.codeSize})",
      s!"  .maxstack  {m.maxStack}"] ++
    localLines m.locals ++
    m.instructions.map (fun i => "  " ++ i.display) ++
    ["\x7d"]

end MethodBody

end DebugExpr.Code
