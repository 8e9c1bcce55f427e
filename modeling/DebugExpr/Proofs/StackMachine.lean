import DebugExpr.Code.Encoder
import DebugExpr.Code.Method
import DebugExpr.Proofs.Evaluation

/-! The machine that runs a method body. Its evaluation stack has slots of 32 and of 64 bits and
references. A variable of a small integral type holds as many bits as its type has: a store drops
the others, and a load extends what is left to 32 bits. Control goes by offsets. Only the
instructions that compute with integers and move references are given a meaning; at any other one,
and where operands do not fit, the machine is stuck. -/
namespace DebugExpr.Code
open Metadata DebugExpr.Bound

/-- A slot of the evaluation stack. -/
inductive Slot where
  | int32 (bits : BitVec 32)
  | int64 (bits : BitVec 64)
  /-- A reference to an object, or null. -/
  | object (object : Option Nat)
  /-- A value that is not computed with. -/
  | other (id : Nat)
  deriving DecidableEq

/-- The lowest bits that a small integral type has, extended to 32 bits by its sign. -/
def resize {w : Nat} (p : Primitive) (b : BitVec w) : BitVec 32 :=
  if p.isUnsigned then (b.setWidth (bits p)).setWidth 32 else (b.setWidth (bits p)).signExtend 32

namespace Slot

/-- What a branch tests: whether a slot is neither zero nor null. -/
def isTrue? : Slot → Option Bool
  | int32 b => some (b ≠ 0)
  | int64 b => some (b ≠ 0)
  | object o => some o.isSome
  | other _ => none

/-- Conversion to a small integral type. -/
def toSmall (p : Primitive) : Slot → Except Trap Slot
  | int32 b => .ok (int32 (resize p b))
  | int64 b => .ok (int32 (resize p b))
  | _ => .error .undefined

def toInt32 : Slot → Except Trap Slot
  | int32 b => .ok (int32 b)
  | int64 b => .ok (int32 (b.setWidth 32))
  | _ => .error .undefined

/-- Conversion to 64 bits; an integer of 32 bits is extended by its sign or by zeros. -/
def toInt64 (signed : Bool) : Slot → Except Trap Slot
  | int32 b => .ok (int64 (if signed then b.signExtend 64 else b.setWidth 64))
  | int64 b => .ok (int64 b)
  | _ => .error .undefined

def neg : Slot → Except Trap Slot
  | int32 b => .ok (int32 (-b))
  | int64 b => .ok (int64 (-b))
  | _ => .error .undefined

/-- Arithmetic on integers of one width. -/
def onIntegers (f : ∀ w, BitVec w → BitVec w → Except Trap (BitVec w)) :
    Slot → Slot → Except Trap Slot
  | int32 a, int32 b => do return int32 (← f 32 a b)
  | int64 a, int64 b => do return int64 (← f 64 a b)
  | _, _ => .error .undefined

/-- What a variable of the kind holds of a slot that is stored into it. -/
def held (kind? : Option Kind) (slot : Slot) : Except Trap Slot :=
  match kind?, slot with
  | some (.integer p), int32 b =>
    if bits p < 32 then .ok (int32 (resize p b))
    else if bits p = 32 then .ok (int32 b)
    else .error .undefined
  | some (.integer p), int64 b => if bits p = 64 then .ok (int64 b) else .error .undefined
  | some .reference, object o => .ok (object o)
  | none, slot => .ok slot
  | _, _ => .error .undefined

end Slot

/-- Division of signed integers. It fails where the divisor is zero and where the quotient has no
representation. -/
def divideSigned (w : Nat) (a b : BitVec w) : Except Trap (BitVec w) :=
  if b = 0 then .error .divideByZero
  else if a = .intMin w ∧ b = -1 then .error .overflow
  else .ok (a.sdiv b)

def divideUnsigned (w : Nat) (a b : BitVec w) : Except Trap (BitVec w) :=
  if b = 0 then .error .divideByZero else .ok (a.udiv b)

/-- The stack, with its top first, and the variables. -/
structure Config where
  stack : List Slot
  memory : Memory Slot

namespace Config

def push (c : Config) (slot : Slot) : Config :=
  { c with stack := slot :: c.stack }

def load (c : Config) (x : Variable) : Except Trap Config :=
  match c.memory.get? x with
  | some slot => .ok (c.push slot)
  | none => .error .undefined

/-- Stores into a variable, of which the kind may be known. -/
def store (kinds : Memory (Option Kind)) (c : Config) (x : Variable) : Except Trap Config :=
  match kinds.get? x, c.stack with
  | some kind?, slot :: rest => do return ⟨rest, c.memory.set x (← slot.held kind?)⟩
  | _, _ => .error .undefined

def dup (c : Config) : Except Trap Config :=
  match c.stack with
  | slot :: rest => .ok { c with stack := slot :: slot :: rest }
  | [] => .error .undefined

def drop (c : Config) : Except Trap Config :=
  match c.stack with
  | _ :: rest => .ok { c with stack := rest }
  | [] => .error .undefined

def unary (f : Slot → Except Trap Slot) (c : Config) : Except Trap Config :=
  match c.stack with
  | a :: rest => do return { c with stack := (← f a) :: rest }
  | [] => .error .undefined

/-- The right operand is on the top. -/
def binary (f : Slot → Slot → Except Trap Slot) (c : Config) : Except Trap Config :=
  match c.stack with
  | b :: a :: rest => do return { c with stack := (← f a b) :: rest }
  | _ => .error .undefined

end Config

/-- The variable that an operand names. -/
def Operand.asVariable? : Operand → Option Variable
  | localSlot index => some (.local index)
  | argumentSlot index => some (.argument index)
  | _ => .none

/-- The constant that an operand holds. -/
def Operand.constant? : Operand → Option Slot
  | int8 value => some (.int32 (value.toBitVec.signExtend 32))
  | int32 value => some (.int32 value.toBitVec)
  | int64 value => some (.int64 value.toBitVec)
  | _ => .none

/-- Executes an instruction behind which control goes on. -/
def execute (kinds : Memory (Option Kind)) (op : Opcode) (operand : Operand) (c : Config) :
    Except Trap Config :=
  match op with
  | .nop => .ok c
  | .ldcI4M1 => .ok (c.push (.int32 (-1)))
  | .ldcI40 => .ok (c.push (.int32 0))
  | .ldcI41 => .ok (c.push (.int32 1))
  | .ldcI42 => .ok (c.push (.int32 2))
  | .ldcI43 => .ok (c.push (.int32 3))
  | .ldcI44 => .ok (c.push (.int32 4))
  | .ldcI45 => .ok (c.push (.int32 5))
  | .ldcI46 => .ok (c.push (.int32 6))
  | .ldcI47 => .ok (c.push (.int32 7))
  | .ldcI48 => .ok (c.push (.int32 8))
  | .ldcI4S | .ldcI4 | .ldcI8 => operand.constant?.elim (.error .undefined) (.ok <| c.push ·)
  | .ldnull => .ok (c.push (.object none))
  | .ldarg0 => c.load (.argument 0)
  | .ldarg1 => c.load (.argument 1)
  | .ldarg2 => c.load (.argument 2)
  | .ldarg3 => c.load (.argument 3)
  | .ldloc0 => c.load (.local 0)
  | .ldloc1 => c.load (.local 1)
  | .ldloc2 => c.load (.local 2)
  | .ldloc3 => c.load (.local 3)
  | .ldargS | .ldarg | .ldlocS | .ldloc => operand.asVariable?.elim (.error .undefined) c.load
  | .stloc0 => c.store kinds (.local 0)
  | .stloc1 => c.store kinds (.local 1)
  | .stloc2 => c.store kinds (.local 2)
  | .stloc3 => c.store kinds (.local 3)
  | .stargS | .starg | .stlocS | .stloc =>
    operand.asVariable?.elim (.error .undefined) (c.store kinds)
  | .dup => c.dup
  | .pop => c.drop
  | .add => c.binary (Slot.onIntegers fun _ a b => .ok (a + b))
  | .sub => c.binary (Slot.onIntegers fun _ a b => .ok (a - b))
  | .mul => c.binary (Slot.onIntegers fun _ a b => .ok (a * b))
  | .div => c.binary (Slot.onIntegers divideSigned)
  | .divUn => c.binary (Slot.onIntegers divideUnsigned)
  | .neg => c.unary Slot.neg
  | .convI1 => c.unary (Slot.toSmall .int8)
  | .convU1 => c.unary (Slot.toSmall .uint8)
  | .convI2 => c.unary (Slot.toSmall .int16)
  | .convU2 => c.unary (Slot.toSmall .uint16)
  | .convI4 | .convU4 => c.unary Slot.toInt32
  | .convI8 => c.unary (Slot.toInt64 true)
  | .convU8 => c.unary (Slot.toInt64 false)
  | _ => .error .undefined

/-- Where control stands, with the stack and the variables. -/
structure State where
  offset : Nat
  config : Config

/-- How a run ends. -/
inductive Outcome where
  | returned (result : Option Slot) (memory : Memory Slot)
  | trapped (trap : Trap)
  deriving DecidableEq

/-- The condition of a branch in either form. -/
def Opcode.condition? : Opcode → Option Condition
  | .brS | .br => some .always
  | .brfalseS | .brfalse => some .ifFalse
  | .brtrueS | .brtrue => some .ifTrue
  | _ => none

/-- Whether a branch is taken, and the configuration behind it. -/
def Config.test (c : Config) (condition : Condition) : Except Trap (Bool × Config) :=
  match condition, c.stack with
  | .always, _ => .ok (true, c)
  | .ifTrue, slot :: rest =>
    slot.isTrue?.elim (.error .undefined) fun true? => .ok (true?, { c with stack := rest })
  | .ifFalse, slot :: rest =>
    slot.isTrue?.elim (.error .undefined) fun true? => .ok (!true?, { c with stack := rest })
  | _, [] => .error .undefined

/-- Returns what is on the stack. -/
def Config.ret (c : Config) : Outcome :=
  match c.stack with
  | [] => .returned none c.memory
  | [slot] => .returned (some slot) c.memory
  | _ => .trapped .undefined

namespace MethodBody

/-- What is known of the variables of a method: of the locals by their types, of the arguments as
given. -/
def kinds (m : MethodBody) (arguments : List (Option Kind)) : Memory (Option Kind) :=
  ⟨m.locals.map kind?, arguments⟩

/-- One step of the machine, or the end of the run. -/
def step (m : MethodBody) (kinds : Memory (Option Kind)) (s : State) : Except Outcome State :=
  match m.instructions.find? (·.offset == s.offset) with
  | none => .error (.trapped .undefined)
  | some i =>
    let next := i.offset + i.opcode.size
    if i.opcode = .ret then .error s.config.ret
    else
      match i.opcode.condition?, i.operand with
      | some condition, .target offset =>
        match s.config.test condition with
        | .ok (taken, c) => .ok ⟨if taken then offset else next, c⟩
        | .error trap => .error (.trapped trap)
      | some _, _ => .error (.trapped .undefined)
      | none, operand =>
        match execute kinds i.opcode operand s.config with
        | .ok c => .ok ⟨next, c⟩
        | .error trap => .error (.trapped trap)

/-- The run from the state ends in the outcome. -/
inductive Ends (m : MethodBody) (kinds : Memory (Option Kind)) : State → Outcome → Prop
  | stop {s : State} {outcome : Outcome} (stops : m.step kinds s = .error outcome) :
    Ends m kinds s outcome
  | next {s s' : State} {outcome : Outcome} (steps : m.step kinds s = .ok s')
    (ends : Ends m kinds s' outcome) : Ends m kinds s outcome

variable {m : MethodBody} {kinds : Memory (Option Kind)} {s : State} {outcome outcome' : Outcome}

/-- A run has no more than one end. -/
theorem Ends.unique (ends : m.Ends kinds s outcome) (ends' : m.Ends kinds s outcome') :
    outcome = outcome' := by
  induction ends with
  | stop stops =>
    cases ends' with
    | stop stops' => exact Except.error.inj (stops.symm.trans stops')
    | next steps => rw [stops] at steps; cases steps
  | next steps _ ih =>
    cases ends' with
    | stop stops => rw [steps] at stops; cases stops
    | next steps' ends' =>
      rw [Except.ok.inj (steps'.symm.trans steps)] at ends'
      exact ih ends'

end MethodBody

/-- A value as it stands on the stack. -/
def slotOf : Value → Slot
  | .integer p n => if bits p = 64 then .int64 (.ofInt 64 n) else .int32 (.ofInt 32 n)
  | .reference object => .object object
  | .other id => .other id

end DebugExpr.Code
