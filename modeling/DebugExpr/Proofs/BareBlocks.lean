import DebugExpr.Proofs.VariableAccesses

/-! Code without variables. What loads or stores through an address or in an array, converts a
value or pushes a constant accesses no variable, calls no member and needs no temporary. -/
namespace DebugExpr.Code
open Metadata Source DebugExpr.Bound

namespace Callee

def isElement : Callee → Bool
  | element .. => true
  | _ => false

end Callee

namespace Block

/-- The block accesses no variable, calls no member but accessors of arrays, and needs no
temporary. -/
def Bare : Block → Prop
  | skip | fault _ => True
  | plain op operand => access? op operand = none
  | call _ callee => callee.isElement = true
  | seq first second => Bare first ∧ Bare second
  | orElse .. | spill _ | keeping .. => False

namespace Bare
variable {b : Block}

theorem op {opcode : Opcode} (none : opcode.access? = none) : Bare (.op opcode) := by
  simp [Bare, Block.op, access?, none]

theorem accesses (bare : b.Bare) : b.accesses = [] := by
  induction b with
  | skip | fault | call => rfl
  | plain op operand =>
    have none : access? op operand = none := bare
    rw [Block.accesses, none, Option.toList_none]
  | seq first second ihFirst ihSecond =>
    rw [Block.accesses, ihFirst bare.1, ihSecond bare.2, List.append_nil]
  | orElse | spill | keeping => exact bare.elim

theorem temporaries (bare : b.Bare) : b.temporaries = [] := by
  induction b with
  | skip | fault | plain | call => rfl
  | seq first second ihFirst ihSecond =>
    rw [Block.temporaries, ihFirst bare.1, ihSecond bare.2, List.append_nil]
  | orElse | spill | keeping => exact bare.elim

end Bare
end Block

open Block

variable (type : ClosedType) (rank : Nat)

theorem storeIndirect?_bare {p : Primitive} {op : Opcode} (stores : storeIndirect? p = some op) :
    Bare (.op op) :=
  .op (by cases p <;> cases stores <;> rfl)

theorem convertNumeric?_bare {source target : Primitive} {op : Opcode}
    (converts : convertNumeric? source target = some op) : Bare (.op op) := by
  refine .op ?_
  revert converts
  cases source <;> cases target <;> rintro ⟨⟩ <;> rfl

theorem arithmetic_bare (op : BinaryOp) (isUnsigned : Bool) :
    Bare (.op (arithmetic op isUnsigned)) :=
  .op (by cases op <;> cases isUnsigned <;> rfl)

theorem pushIndirect_bare : (pushIndirect type).Bare := by
  unfold pushIndirect
  split
  · rename_i p _
    exact .op (by cases p <;> rfl)
  · split <;> rfl

theorem popIndirect_bare : (popIndirect type).Bare := by
  unfold popIndirect
  split
  · split
    · exact storeIndirect?_bare ‹_›
    · trivial
  · split <;> rfl

theorem callElement_bare (access : ElementAccess) : (callElement type rank access).Bare := by
  unfold callElement
  split
  · trivial
  · rfl

theorem pushElement_bare : (pushElement type rank).Bare := by
  unfold pushElement
  split
  · split
    · rename_i p _
      exact .op (by cases p <;> rfl)
    · split <;> rfl
  · exact callElement_bare type rank .get

theorem pushElementAddress_bare : (pushElementAddress type rank).Bare := by
  unfold pushElementAddress
  split
  · rfl
  · exact callElement_bare type rank .address

theorem popElement_bare : (popElement type rank).Bare := by
  unfold popElement
  split
  · split
    · rename_i p _
      exact .op (by cases p <;> rfl)
    · split <;> rfl
  · exact callElement_bare type rank .set

theorem convertTop_bare (kind : Conversion) (source : Option ClosedType) :
    (convertTop kind source type).Bare := by
  unfold convertTop
  split
  · trivial
  · trivial
  · split
    · rfl
    · trivial
  · rfl
  · rfl
  · split
    · trivial
    · split
      · exact convertNumeric?_bare ‹_›
      · trivial

theorem pushConstant_bare (value : Constant) : (pushConstant value).Bare := by
  cases value with
  | bool | int32 => exact Form.int32_access _
  | int64 | string => rfl

theorem pushArgument_bare (argument : Pseudo.Argument) : (pushArgument argument).Bare := by
  cases argument with
  | none => trivial
  | int32 => exact Form.int32_access _
  | string | uint64 => rfl

theorem narrowPseudo_bare (o : Pseudo.Occurrence) : (narrowPseudo o).Bare := by
  unfold narrowPseudo
  split
  · exact pushIndirect_bare o.type
  · split
    · split <;> rfl
    · trivial

end DebugExpr.Code
