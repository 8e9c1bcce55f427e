import Mathlib.Algebra.Ring.Nat
import DebugExpr.Bound.Conversion
import DebugExpr.Proofs.Success

/-! Values of bound terms, for the terms that compute with integers and move references. A term is
evaluated from left to right. Arithmetic is unchecked: a result is reduced into the range of its type,
and only a division can fail. -/
namespace DebugExpr.Bound
open Metadata Source

/-- An integral type of a fixed width. -/
def isInteger (p : Primitive) : Bool :=
  (valueRange? p).isSome

/-- The bits of an integral type. -/
def bits : Primitive → Nat
  | .int8 | .uint8 => 8
  | .int16 | .uint16 | .char => 16
  | .int32 | .uint32 => 32
  | _ => 64

/-- The integer of the type's range that agrees with a given one in the bits of the type. -/
def wrap (p : Primitive) (n : Int) : Int :=
  if p.isUnsigned then n % ((2 ^ bits p : Nat) : Int) else n.bmod (2 ^ bits p)

/-- What a value of a type is. -/
inductive Kind where
  | integer (p : Primitive)
  | reference
  deriving DecidableEq

/-- The kind of a type; none for types of other values than integers and references. -/
def kind? (type : ClosedType) : Option Kind :=
  if type.isValueType then (type.primitive?.filter isInteger).map .integer
  else if (numeric? type).isSome then none
  else some .reference

/-- A value. An integer comes with its type; values that are not computed with are told apart by
numbers. -/
inductive Value where
  | integer (p : Primitive) (n : Int)
  /-- A reference to an object, or null. -/
  | reference (object : Option Nat)
  | other (id : Nat)
  deriving DecidableEq

/-- The value is of the kind. -/
def Value.Of : Value → Kind → Prop
  | integer p n, k => k = .integer p ∧ inRange p n = true
  | reference _, k => k = .reference
  | other _, _ => False

/-- A local or an argument, by its index. -/
inductive Variable where
  | local (index : Nat)
  | argument (index : Nat)
  deriving DecidableEq

/-- What the locals and the arguments of a method hold. -/
structure Memory (α : Type) where
  locals : List α
  arguments : List α
  deriving DecidableEq

namespace Memory
variable {α β : Type}

def get? (memory : Memory α) : Variable → Option α
  | .local index => memory.locals[index]?
  | .argument index => memory.arguments[index]?

/-- Changes a variable. One that does not exist stays so. -/
def set (memory : Memory α) (x : Variable) (a : α) : Memory α :=
  match x with
  | .local index => { memory with locals := memory.locals.set index a }
  | .argument index => { memory with arguments := memory.arguments.set index a }

def map (f : α → β) (memory : Memory α) : Memory β :=
  ⟨memory.locals.map f, memory.arguments.map f⟩

theorem get?_map (f : α → β) (memory : Memory α) (x : Variable) :
    (memory.map f).get? x = (memory.get? x).map f := by
  cases x <;> simp [get?, map]

theorem map_set (f : α → β) (memory : Memory α) (x : Variable) (a : α) :
    (memory.set x a).map f = (memory.map f).set x (f a) := by
  cases x <;> simp [set, map, List.map_set]

theorem get?_set (memory : Memory α) (x y : Variable) (a : α) :
    (memory.set x a).get? y =
      if x = y then (memory.get? y).map fun _ => a else memory.get? y := by
  cases x <;> cases y <;> simp [get?, set, List.getElem?_set'] <;> rfl

end Memory

/-- Every variable exists and holds a value of its kind. Nothing is said of variables without one. -/
def Memory.Typed (memory : Memory Value) (kinds : Memory (Option Kind)) : Prop :=
  ∀ x kind?, kinds.get? x = some kind? →
    ∃ value, memory.get? x = some value ∧ ∀ kind ∈ kind?, value.Of kind

theorem Memory.Typed.set {kinds : Memory (Option Kind)} {memory : Memory Value}
    (typed : memory.Typed kinds) {x : Variable} {kind : Kind} {value : Value}
    (known : kinds.get? x = some (some kind)) (ofKind : value.Of kind) :
    (memory.set x value).Typed kinds := by
  intro y kind? found
  obtain ⟨before, holds, ofBefore⟩ := typed y kind? found
  rw [Memory.get?_set]
  by_cases same : x = y
  · subst same
    obtain rfl : some kind = kind? := Option.some.inj (known.symm.trans found)
    exact ⟨value, by simp [holds], by simpa using ofKind⟩
  · exact ⟨before, by simp [same, holds], ofBefore⟩

/-- Why an evaluation ends without a value. -/
inductive Trap where
  | divideByZero
  /-- The quotient is not in the range of the type. -/
  | overflow
  /-- The term is none of those that have a value here. -/
  | undefined
  deriving DecidableEq, Repr

/-- Arithmetic on integers of one type. -/
def compute (op : BinaryOp) (p : Primitive) (a b : Int) : Except Trap Int :=
  match op with
  | .add => .ok (wrap p (a + b))
  | .subtract => .ok (wrap p (a - b))
  | .multiply => .ok (wrap p (a * b))
  | .divide =>
    if b = 0 then .error .divideByZero
    else if inRange p (a.tdiv b) then .ok (a.tdiv b)
    else .error .overflow

/-- Arithmetic on the values of two operands. -/
def Value.compute (op : BinaryOp) : Value → Value → Except Trap Value
  | integer p a, integer _ b => do return integer p (← Bound.compute op p a b)
  | _, _ => .error .undefined

namespace Term

/-- The variable that a term is. -/
def asVariable? : Term → Option Variable
  | localVar index _ => some (.local index)
  | parameter index false _ => some (.argument index)
  | _ => none

theorem asVariable?_eq_some {t : Term} {x : Variable} (isVariable : t.asVariable? = some x) :
    (∃ index type, t = .localVar index type ∧ x = .local index) ∨
      ∃ index type, t = .parameter index false type ∧ x = .argument index := by
  cases t with
  | localVar index type => exact .inl ⟨index, type, rfl, (Option.some.inj isVariable).symm⟩
  | parameter index byRef type =>
    cases byRef with
    | false => exact .inr ⟨index, type, rfl, (Option.some.inj isVariable).symm⟩
    | true => cases isVariable
  | _ => cases isVariable

/-- The value that a constant of the type holds. -/
def constantValue (n : Int) (type : ClosedType) : Except Trap Value :=
  match kind? type with
  | some (.integer p) => .ok (.integer p (wrap p n))
  | _ => .error .undefined

def readVariable (t : Term) (memory : Memory Value) : Except Trap (Value × Memory Value) :=
  match t.asVariable?.bind memory.get? with
  | some value => .ok (value, memory)
  | none => .error .undefined

/-- Stores a value, which is also the answer. -/
def writeVariable (t : Term) (value : Value) (memory : Memory Value) :
    Except Trap (Value × Memory Value) :=
  match t.asVariable? with
  | some x => .ok (value, memory.set x value)
  | none => .error .undefined

/-- The value of a term, and what the variables hold behind it. -/
def eval : Term → Memory Value → Except Trap (Value × Memory Value)
  | null, memory => .ok (.reference none, memory)
  | constant (.int32 value) type, memory => do
    return (← constantValue value.toInt type, memory)
  | constant (.int64 value) type, memory => do
    return (← constantValue value.toInt type, memory)
  | localVar index type, memory => readVariable (localVar index type) memory
  | parameter index byRef type, memory => readVariable (parameter index byRef type) memory
  | conversion (.numeric p) operand _, memory => do
    match ← eval operand memory with
    | (.integer _ n, memory) => return (.integer p (wrap p n), memory)
    | _ => throw .undefined
  | conversion .nullLiteral operand _, memory => eval operand memory
  | conversion .implicitReference operand _, memory => eval operand memory
  | negate operand, memory => do
    match ← eval operand memory with
    | (.integer p n, memory) => return (.integer p (wrap p (-n)), memory)
    | _ => throw .undefined
  | binary op left right _, memory => do
    let (a, memory) ← eval left memory
    let (b, memory) ← eval right memory
    return (← a.compute op b, memory)
  | coalesce left right _, memory => do
    let (a, memory) ← eval left memory
    if a = .reference none then eval right memory else return (a, memory)
  | assign target value _, memory => do
    let (b, memory) ← eval value memory
    target.writeVariable b memory
  | compound op target value _, memory => do
    let (a, memory) ← eval target memory
    let (b, memory) ← eval value memory
    target.writeVariable (← a.compute op b) memory
  | _, _ => .error .undefined

end Term

theorem isInteger_of_inRange {p : Primitive} {n : Int} (range : inRange p n = true) :
    isInteger p = true := by
  obtain ⟨bounds, found, -⟩ := (Option.any_eq_true ..).mp range
  simp [isInteger, found]

/-- Of the integral types two take sixty-four bits. -/
theorem bits_eq_64 {p : Primitive} (integer : isInteger p = true) :
    bits p = 64 ↔ p = .int64 ∨ p = .uint64 := by
  cases p <;> first | decide | cases integer

/-- Reducing an integer leads into the range of the type. -/
theorem inRange_wrap {p : Primitive} (integer : isInteger p = true) (n : Int) :
    inRange p (wrap p n) = true := by
  cases p <;> try cases integer
  all_goals
    simp only [inRange, valueRange?, Option.any_some, wrap, Primitive.isUnsigned, bits, if_true,
      Bool.false_eq_true, if_false, Bool.and_eq_true, decide_eq_true_eq, Int.bmod_def]
    omega

/-- An integer of the range stays. -/
theorem wrap_of_inRange {p : Primitive} {n : Int} (range : inRange p n = true) : wrap p n = n := by
  have integer := isInteger_of_inRange range
  cases p <;> try cases integer
  all_goals
    simp only [inRange, valueRange?, Option.any_some, Bool.and_eq_true, decide_eq_true_eq] at range
    simp only [wrap, Primitive.isUnsigned, bits, if_true, Bool.false_eq_true, if_false, Int.bmod_def]
    omega

end DebugExpr.Bound
