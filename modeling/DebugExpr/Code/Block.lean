import DebugExpr.Bound.Term
import DebugExpr.Code.Encoder

/-! Pieces of code before they are encoded. A block is a tree of instructions: branches, labels and
temporaries appear only in the few patterns that expressions need, and calls name the member that
they call. Encoding a block appends its instructions to a method body. -/
namespace DebugExpr.Code
open Metadata DebugExpr.Bound Encode

/-- What an accessor of an array of more than one dimension does with an element. -/
inductive ElementAccess where
  | get
  | address
  | set
  deriving DecidableEq, Repr

namespace ElementAccess

def name : ElementAccess → String
  | get => "Get"
  | address => "Address"
  | set => "Set"

/-- The values that follow the indices. -/
def further : ElementAccess → Nat
  | get | address => 0
  | set => 1

end ElementAccess

/-- A member that code calls. -/
inductive Callee where
  | method (m : MethodRef)
  /-- The getter of a property, on a receiver unless it is static. -/
  | getter (p : MemberRef) (onReceiver : Bool)
  | accessor (call : Pseudo.Call)
  | element (type : ClosedType) (rank : Nat) (access : ElementAccess)

namespace Callee

/-- The member in a listing. An accessor of an array shows as in `int[*,*].Get`. -/
def display : Callee → String
  | method m => m.display
  | getter p _ => p.displayGetter
  | accessor call => call.display
  | element type rank access =>
    s!"{type.display}[" ++ ",".intercalate (List.replicate rank "*") ++ s!"].{access.name}"

/-- The values that a call takes from the stack. -/
def takes : Callee → Nat
  | method m => m.popCount
  | getter _ onReceiver => if onReceiver then 1 else 0
  | accessor call => if call.argument = .none then 0 else 1
  | element _ rank access => rank + 1 + access.further

/-- The values that a call leaves on the stack. -/
def leaves : Callee → Nat
  | method m => if m.returns.isSome then 1 else 0
  | getter .. | accessor _ => 1
  | element _ _ access => if access = .set then 0 else 1

end Callee

inductive Block where
  /-- No code. -/
  | skip
  /-- Code that no method body can hold. -/
  | fault (f : Fault)
  | plain (op : Opcode) (operand : Operand)
  | call (op : Opcode) (callee : Callee)
  | seq (first second : Block)
  /-- The left value unless it is null, else the right one. -/
  | orElse (left right : Block)
  /-- Moves the value on the stack to a new temporary and pushes the address of that. -/
  | spill (type : ClosedType)
  /-- Copies the value on the stack to a new temporary and pushes the copy after the body. -/
  | keeping (type : ClosedType) (body : Block)

namespace Block

instance : Append Block := ⟨seq⟩

/-- An instruction without operand. -/
def op (op : Opcode) : Block :=
  plain op .none

/-- An instruction with a member or a type as its operand. -/
def onMember (op : Opcode) (text : String) : Block :=
  plain op (.member text)

def form (f : Form) : Block :=
  plain f.opcode f.operand

/-- Encodes the block. -/
def encode : Block → Encode Unit
  | skip => pure ()
  | fault f => throw f
  | plain op operand => emit op operand
  | call op callee => Encode.call op callee.display callee.takes callee.leaves
  | seq first second => do
    first.encode
    second.encode
  | orElse left right => do
    let done ← newLabel
    left.encode
    emit .dup
    branch .brtrue done
    emit .pop
    right.encode
    placeLabel done
  | spill type => do
    let slot ← newLocal type
    storeLocal slot
    loadLocalAddress slot
  | keeping type body => do
    emit .dup
    let slot ← newLocal type
    storeLocal slot
    body.encode
    loadLocal slot

end Block

end DebugExpr.Code
