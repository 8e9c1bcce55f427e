import DebugExpr.Code.Fault
import DebugExpr.Code.Form
import DebugExpr.Metadata.ClosedType

/-! The instruction encoder. It collects instructions, follows the depth of the evaluation stack and
notes the depth at which every label is branched to. Code behind an unconditional branch or a return
cannot be reached until a label is defined; there the depth means nothing and is held at zero or
above. A call that fails leaves what it had changed before. -/
namespace DebugExpr.Code
open Metadata

/-- When a branch is taken. -/
inductive Condition where
  | always
  | ifFalse
  | ifTrue
  deriving DecidableEq, Repr

namespace Condition

/-- The branch with a displacement of one byte. -/
def short : Condition → Opcode
  | always => .brS
  | ifFalse => .brfalseS
  | ifTrue => .brtrueS

/-- The branch with a displacement of four bytes. -/
def long : Condition → Opcode
  | always => .br
  | ifFalse => .brfalse
  | ifTrue => .brtrue

/-- The condition of a branch that is given in its long form. -/
def ofLong? : Opcode → Option Condition
  | .br => some always
  | .brfalse => some ifFalse
  | .brtrue => some ifTrue
  | _ => none

/-- The values that the branch takes from the stack. -/
def pops : Condition → Nat
  | always => 0
  | ifFalse => 1
  | ifTrue => 1

end Condition

/-- An instruction before its offset is known. -/
inductive Item where
  | plain (op : Opcode) (operand : Operand)
  /-- A branch, in its short form unless it is wide. -/
  | branch (condition : Condition) (wide : Bool) (target : Label)
  deriving DecidableEq

def Item.opcode : Item → Opcode
  | plain op _ => op
  | branch condition wide _ => if wide then condition.long else condition.short

structure Encoder where
  items : Array Item := #[]
  /-- For each label the index of the instruction that follows it, once it is defined. -/
  labels : Array (Option Nat) := #[]
  locals : Array ClosedType := #[]
  /-- Depth of the evaluation stack; below zero only after an underflow. -/
  depth : Int := 0
  maxDepth : Nat := 0
  /-- The depth that the first branch to a label left. -/
  branchDepths : List (Label × Int) := []
  unreachable : Bool := false

/-- An encoding step: it may fail, and changes the encoder in either case. -/
abbrev Encode := ExceptT Fault (StateM Encoder)

namespace Encoder

/-- Depths are held in sixteen bits. -/
def depthLimit : Nat := 0xFFFF

/-- An encoder whose first local slots are taken. -/
def ofLocals (locals : List ClosedType) : Encoder :=
  { locals := locals.toArray }

def expectedDepth? (e : Encoder) (label : Label) : Option Int :=
  (e.branchDepths.find? (·.1 == label)).map (·.2)

end Encoder

namespace Encode
open Encoder

/-- Appends an instruction. -/
def push (item : Item) : Encode Unit :=
  modify fun e => { e with items := e.items.push item }

/-- Moves the depth of the stack. -/
def adjust (pops pushes : Nat) : Encode Unit := do
  modify fun e => { e with depth := e.depth + pushes - pops }
  let e ← get
  if e.depth < 0 then
    if !e.unreachable then throw (.stackUnderflow e.depth pops pushes)
    set { e with depth := 0 }
  let e ← get
  if e.depth.toNat > depthLimit then throw .stackTooDeep
  set { e with maxDepth := max e.maxDepth e.depth.toNat }

/-- Emits an instruction that has a fixed effect and is no branch. -/
def emit (op : Opcode) (operand : Operand := .none) : Encode Unit :=
  match op.info.effect with
  | .byCaller => throw (.effectNotFixed op)
  | .fixed pops pushes => do
    if op.info.flow ≠ .next then throw (.emittedBranch op)
    if !operand.fits op.operand then throw (.operandMisfit operand op)
    push (.plain op operand)
    adjust pops pushes

/-- Counts of arguments and results are held in eight bits. -/
def maxArguments : Nat := 0xFF

/-- Emits a call of a member, whose effect the caller says. -/
def call (op : Opcode) (member : String) (pops pushes : Nat) : Encode Unit := do
  if op.info.effect ≠ .byCaller ∨ op.operand ≠ .token then throw (.notCall op)
  push (.plain op (.member member))
  if pops > maxArguments then throw (.tooManyArguments pops)
  if pushes > maxArguments then throw (.tooManyResults pushes)
  adjust pops pushes

/-- Notes the depth of a branch to the label, or compares it with the one noted. -/
def noteBranch (label : Label) : Encode Unit := do
  let e ← get
  match e.expectedDepth? label with
  | some expected =>
    if expected ≠ e.depth then throw (.branchDepthMismatch label expected e.depth)
  | none => set { e with branchDepths := (label, e.depth) :: e.branchDepths }

def requireLabel (label : Label) : Encode Unit := do
  if label.id ≥ (← get).labels.size then throw (.unknownLabel label)

/-- Emits a branch, given in its long form. -/
def branch (op : Opcode) (label : Label) : Encode Unit :=
  match Condition.ofLong? op with
  | none => throw (.notLongBranch op)
  | some condition => do
    requireLabel label
    push (.branch condition false label)
    adjust condition.pops 0
    noteBranch label
    if condition = .always then modify fun e => { e with unreachable := true }

/-- Emits a return, of the value on the stack if there is one. -/
def ret (hasValue : Bool) : Encode Unit := do
  push (.plain .ret .none)
  adjust (if hasValue then 1 else 0) 0
  let e ← get
  if e.depth ≠ 0 ∧ !e.unreachable then throw (.stackNotEmpty e.depth)
  set { e with unreachable := true }

/-- A label that is not defined yet. -/
def newLabel : Encode Label := do
  let e ← get
  set { e with labels := e.labels.push none }
  return ⟨e.labels.size⟩

/-- Places a label before the next instruction. Where control falls through to it, the depth has to
agree with the branches. -/
def placeLabel (label : Label) : Encode Unit := do
  requireLabel label
  let e ← get
  if (e.labels.getD label.id none).isSome then throw (.duplicateLabel label)
  set { e with labels := e.labels.setIfInBounds label.id (some e.items.size) }
  match e.expectedDepth? label with
  | none => pure ()
  | some expected =>
    if e.unreachable then modify fun e => { e with depth := expected }
    else if e.depth ≠ expected then throw (.labelDepthMismatch label expected e.depth)
  modify fun e => { e with unreachable := false }

/-- Appends a local slot and answers its index. -/
def newLocal (type : ClosedType) : Encode Nat := do
  let e ← get
  if e.locals.size ≥ UInt16.size then throw (.tooManyLocals e.locals.size)
  set { e with locals := e.locals.push type }
  return e.locals.size

/-- Emits an instruction in the form given. -/
def emitForm (form : Form) : Encode Unit :=
  emit form.opcode form.operand

def pushInt32 (value : Int32) : Encode Unit :=
  emitForm (.int32 value)

def pushInt64 (value : Int64) : Encode Unit :=
  emitForm (.int64 value)

def loadLocal (index : Nat) : Encode Unit :=
  emitForm (.loadLocal index)

def storeLocal (index : Nat) : Encode Unit :=
  emitForm (.storeLocal index)

def loadLocalAddress (index : Nat) : Encode Unit :=
  emitForm (.loadLocalAddress index)

def loadArgument (index : Nat) : Encode Unit :=
  emitForm (.loadArgument index)

def storeArgument (index : Nat) : Encode Unit :=
  emitForm (.storeArgument index)

def loadArgumentAddress (index : Nat) : Encode Unit :=
  emitForm (.loadArgumentAddress index)

end Encode

/-- The instruction of a mnemonic. -/
def Opcode.ofMnemonic (mnemonic : String) : Except Fault Opcode :=
  match Opcode.ofMnemonic? mnemonic with
  | some op => .ok op
  | none => .error (.unknownMnemonic mnemonic)

end DebugExpr.Code
