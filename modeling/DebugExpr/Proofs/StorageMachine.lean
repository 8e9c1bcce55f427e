import DebugExpr.Proofs.Preservation

/-! A machine with storage behind addresses. Beside the slots of the other machine its stack holds
native integers, as wide as in a process of 64 bits, and managed references to storage. A meaning is
given to the accesses to variables of built-in types, to constants, to conversions of integers, to
arithmetic of 32 bits, and to what goes through a reference to a small integer. What all other
instructions do is a parameter, so that results hold whatever it is. -/
namespace DebugExpr.Code
open Metadata DebugExpr.Bound

/-- Where a value is stored. -/
inductive Location where
  | variable (x : Variable)
  /-- A field, an element of an array, or a variable of another method. -/
  | elsewhere (id : Nat)
  deriving DecidableEq

/-- What stands on the stack and in storage. -/
inductive Word where
  | slot (s : Slot)
  /-- A native integer of a process of 64 bits. -/
  | native (bits : BitVec 64)
  /-- A managed reference. -/
  | address (l : Location)
  deriving DecidableEq

namespace Word

/-- The integer that a word is, read with a sign or without one. -/
def integer? (isUnsigned : Bool) : Word → Option Int
  | slot (.int32 b) => some (if isUnsigned then b.toNat else b.toInt)
  | slot (.int64 b) | native b => some (if isUnsigned then b.toNat else b.toInt)
  | _ => none

/-- An integer in 64 bits. One of 32 bits is extended by zeros or by its sign. -/
def extended? (isUnsigned : Bool) (w : Word) : Option (BitVec 64) :=
  (w.integer? isUnsigned).map (BitVec.ofInt 64)

/-- What storage of a built-in type keeps of a word: where the type is small, the lowest bits. A
boolean is stored as a byte. -/
def kept (p : Primitive) : Word → Word
  | slot (.int32 b) =>
    if p = .boolean then slot (.int32 (resize .uint8 b))
    else if bits p < 32 then slot (.int32 (resize p b))
    else slot (.int32 b)
  | w => w

/-- What a branch tests: whether a word is neither zero nor null. -/
def isTrue? : Word → Option Bool
  | slot s => s.isTrue?
  | native b => some (b ≠ 0)
  | address _ => some true

/-- What a conversion makes of an integer. -/
def convert? (op : Opcode) (w : Word) : Option Word :=
  match op with
  | .convI1 => (w.extended? false).map fun b => slot (.int32 (resize .int8 b))
  | .convU1 => (w.extended? false).map fun b => slot (.int32 (resize .uint8 b))
  | .convI2 => (w.extended? false).map fun b => slot (.int32 (resize .int16 b))
  | .convU2 => (w.extended? false).map fun b => slot (.int32 (resize .uint16 b))
  | .convI4 | .convU4 => (w.extended? false).map fun b => slot (.int32 (b.setWidth 32))
  | .convI8 => (w.extended? false).map fun b => slot (.int64 b)
  | .convU8 => (w.extended? true).map fun b => slot (.int64 b)
  | .convI => (w.extended? false).map native
  | .convU => (w.extended? true).map native
  | _ => none

end Word

namespace Opcode

/-- The constant that an instruction pushes. -/
def constant? (op : Opcode) (operand : Operand) : Option Slot :=
  match op with
  | ldcI4M1 => some (.int32 (-1))
  | ldcI40 => some (.int32 0)
  | ldcI41 => some (.int32 1)
  | ldcI42 => some (.int32 2)
  | ldcI43 => some (.int32 3)
  | ldcI44 => some (.int32 4)
  | ldcI45 => some (.int32 5)
  | ldcI46 => some (.int32 6)
  | ldcI47 => some (.int32 7)
  | ldcI48 => some (.int32 8)
  | ldcI4S | ldcI4 | ldcI8 => operand.constant?
  | _ => none

/-- What an instruction makes of two integers of 32 bits. -/
def calculate? (op : Opcode) (left right : BitVec 32) : Option (Except Trap (BitVec 32)) :=
  match op with
  | add => some (.ok (left + right))
  | sub => some (.ok (left - right))
  | mul => some (.ok (left * right))
  | div => some (divideSigned 32 left right)
  | divUn => some (divideUnsigned 32 left right)
  | _ => none

/-- What an instruction does through a reference to a small integer, and of which type. -/
def indirect? : Opcode → Option (Access × Primitive)
  | ldindI1 => some (.load, .int8)
  | ldindU1 => some (.load, .uint8)
  | ldindI2 => some (.load, .int16)
  | ldindU2 => some (.load, .uint16)
  | stindI1 => some (.store, .int8)
  | stindI2 => some (.store, .int16)
  | _ => none

end Opcode

/-- The stack, with its top first, and the storage. -/
structure Activation where
  stack : List Word
  storage : Location → Word

namespace Activation

def push (a : Activation) (w : Word) : Activation :=
  { a with stack := w :: a.stack }

/-- What a load of the type gets from the location. -/
def read (a : Activation) (p : Primitive) (l : Location) : Word :=
  (a.storage l).kept p

/-- Stores a word as one of the type. -/
def write (a : Activation) (p : Primitive) (l : Location) (w : Word) : Activation :=
  { a with storage := Function.update a.storage l (w.kept p) }

theorem push_write (a : Activation) (p : Primitive) (l : Location) (w w' : Word) :
    (a.push w).write p l w' = (a.write p l w').push w :=
  rfl

/-- Goes through the reference on the stack. -/
def through? (a : Activation) : Access × Primitive → Option (Except Trap Activation)
  | (.load, p) =>
    match a.stack with
    | .address l :: rest => some (.ok { a with stack := a.read p l :: rest })
    | _ => none
  | (.store, p) =>
    match a.stack with
    | w :: .address l :: rest => some (.ok { a.write p l w with stack := rest })
    | _ => none
  | (.address, _) => none

/-- Changes the top of the stack without storage. -/
def transform? (a : Activation) (op : Opcode) : Option (Except Trap Activation) :=
  match op, a.stack with
  | .dup, w :: rest => some (.ok { a with stack := w :: w :: rest })
  | .pop, _ :: rest => some (.ok { a with stack := rest })
  | _, w :: rest => (w.convert? op).map fun w => .ok { a with stack := w :: rest }
  | _, [] => none

/-- Computes with the two integers of 32 bits on the stack. -/
def calculate? (a : Activation) (op : Opcode) : Option (Except Trap Activation) :=
  match a.stack with
  | .slot (.int32 right) :: .slot (.int32 left) :: rest =>
    (op.calculate? left right).map fun result => do
      return { a with stack := .slot (.int32 (← result)) :: rest }
  | _ => none

/-- Whether a branch is taken, and the activation behind it. -/
def test (a : Activation) (condition : Condition) : Except Trap (Bool × Activation) :=
  match condition, a.stack with
  | .always, _ => .ok (true, a)
  | .ifTrue, w :: rest =>
    w.isTrue?.elim (.error .undefined) fun true? => .ok (true?, { a with stack := rest })
  | .ifFalse, w :: rest =>
    w.isTrue?.elim (.error .undefined) fun true? => .ok (!true?, { a with stack := rest })
  | _, [] => .error .undefined

/-- A test fails only where there is nothing to test. -/
theorem test_undefined {a : Activation} {condition : Condition} {trap : Trap}
    (fails : a.test condition = .error trap) : trap = .undefined := by
  unfold test at fails
  split at fails
  · cases fails
  · rename_i w rest _
    cases truth : w.isTrue? with
    | none => simpa [truth] using fails.symm
    | some => simp [truth] at fails
  · rename_i w rest _
    cases truth : w.isTrue? with
    | none => simpa [truth] using fails.symm
    | some => simp [truth] at fails
  · simpa using fails.symm

end Activation

structure Machine where
  /-- The built-in type of each variable that holds a value of one. -/
  types : Memory (Option Primitive)
  /-- What the instructions do that are given no meaning here. -/
  outside : Opcode → Operand → Activation → Except Trap Activation

namespace Machine

/-- A machine that is stuck at all other instructions. -/
def bare (types : Memory (Option Primitive)) : Machine :=
  ⟨types, fun _ _ _ => .error .undefined⟩

/-- Accesses a variable. -/
def access? (m : Machine) (a : Activation) : Access × Variable → Option (Except Trap Activation)
  | (.address, x) => some (.ok (a.push (.address (.variable x))))
  | (.load, x) => (m.types.get? x).join.map fun p => .ok (a.push (a.read p (.variable x)))
  | (.store, x) =>
    match a.stack with
    | w :: rest =>
      (m.types.get? x).join.map fun p => .ok { a.write p (.variable x) w with stack := rest }
    | [] => none

/-- What an instruction does that has a meaning here. -/
def known? (m : Machine) (op : Opcode) (operand : Operand) (a : Activation) :
    Option (Except Trap Activation) :=
  match Code.access? op operand with
  | some access => m.access? a access
  | none =>
    match op.indirect? with
    | some access => a.through? access
    | none =>
      match op.constant? operand with
      | some slot => some (.ok (a.push (.slot slot)))
      | none => (a.transform? op).or (a.calculate? op)

/-- Executes an instruction behind which control goes on. -/
def execute (m : Machine) (op : Opcode) (operand : Operand) (a : Activation) :
    Except Trap Activation :=
  (m.known? op operand a).getD (m.outside op operand a)

def executeForm (m : Machine) (f : Form) (a : Activation) : Except Trap Activation :=
  m.execute f.opcode f.operand a

variable {m : Machine} {f : Form} {x : Variable} {p : Primitive}

theorem executeForm_load (accesses : f.access? = some (.load, x))
    (known : m.types.get? x = some (some p)) (a : Activation) :
    m.executeForm f a = .ok (a.push (a.read p (.variable x))) := by
  rw [Form.access?] at accesses
  simp [executeForm, execute, known?, accesses, access?, known]

theorem executeForm_store (accesses : f.access? = some (.store, x))
    (known : m.types.get? x = some (some p)) (a : Activation) (w : Word) :
    m.executeForm f (a.push w) = .ok (a.write p (.variable x) w) := by
  rw [Form.access?] at accesses
  simp [executeForm, execute, known?, accesses, access?, known, Activation.push, Activation.write]

end Machine

/-- Runs the code of a block of which the temporaries have the slots from the given one on. -/
def Block.perform (m : Machine) (slot : Nat) : Block → Activation → Except Trap Activation
  | skip, a => .ok a
  | fault _, _ => .error .undefined
  | plain op operand, a => m.execute op operand a
  | call op callee, a => m.execute op (.member callee.display) a
  | seq first second, a => do
    second.perform m (slot + first.temporaries.length) (← first.perform m slot a)
  | orElse left right, a => do
    let a ← m.execute .dup .none (← left.perform m slot a)
    let (taken, a) ← a.test .ifTrue
    if taken then return a
    else right.perform m (slot + left.temporaries.length) (← m.execute .pop .none a)
  | spill _, a => do
    m.executeForm (.loadLocalAddress slot) (← m.executeForm (.storeLocal slot) a)
  | keeping _ body, a => do
    let a ← m.executeForm (.storeLocal slot) (← m.execute .dup .none a)
    m.executeForm (.loadLocal slot) (← body.perform m (slot + 1) a)

theorem perform_append (m : Machine) (slot : Nat) (first second : Block) (a : Activation) :
    (first ++ second).perform m slot a =
      first.perform m slot a >>= second.perform m (slot + first.temporaries.length) :=
  rfl

/-- Where control stands in a method, with the stack and the storage. -/
structure Point where
  offset : Nat
  activation : Activation

namespace Machine

/-- One step in a method. There is none from a return. -/
def step (m : Machine) (body : MethodBody) (s : Point) : Except Trap Point :=
  match body.instructions.find? (·.offset == s.offset) with
  | none => .error .undefined
  | some i =>
    let next := i.offset + i.opcode.size
    if i.opcode = .ret then .error .undefined
    else
      match i.opcode.condition?, i.operand with
      | some condition, .target offset => do
        let (taken, a) ← s.activation.test condition
        return ⟨if taken then offset else next, a⟩
      | some _, _ => .error .undefined
      | none, operand => do return ⟨next, ← m.execute i.opcode operand s.activation⟩

/-- The machine comes from one point to another. -/
def Reaches (m : Machine) (body : MethodBody) : Point → Point → Prop :=
  Relation.ReflTransGen fun s s' => m.step body s = .ok s'

/-- The machine comes from the point to the offset with the activation, or it ends with the trap.
Nothing is said of code without a meaning. -/
def Leads (m : Machine) (body : MethodBody) (s : Point) (offset : Nat) :
    Except Trap Activation → Prop
  | .ok a => m.Reaches body s ⟨offset, a⟩
  | .error trap => trap ≠ .undefined → ∃ s', m.Reaches body s s' ∧ m.step body s' = .error trap

variable {m : Machine} {body : MethodBody} {s s' : Point} {middle last k : Nat}
  {items : List Item} {marks : List Nat} {offset : Nat → Nat} {i : Instruction}

theorem Leads.after {result : Except Trap Activation} (reaches : m.Reaches body s s')
    (leads : m.Leads body s' last result) : m.Leads body s last result := by
  cases result with
  | ok a => exact reaches.trans leads
  | error trap =>
    intro other
    obtain ⟨s'', further, traps⟩ := leads other
    exact ⟨s'', reaches.trans further, traps⟩

theorem Leads.bind {first : Except Trap Activation} {next : Activation → Except Trap Activation}
    (leads : m.Leads body s middle first)
    (further : ∀ a, first = .ok a → m.Leads body ⟨middle, a⟩ last (next a)) :
    m.Leads body s last (first >>= next) := by
  cases first with
  | ok a => exact .after leads (further a rfl)
  | error trap => exact leads

/-- Behind the instructions of a block control goes on. -/
theorem straight {op : Opcode} (next : op.info.flow = .next) :
    op ≠ .ret ∧ op.condition? = none := by
  revert next
  cases op <;> decide

/-- A straight instruction is executed and control goes on behind it. -/
theorem leads_plain (placed : Placed body.instructions items marks offset)
    (found : body.instructions[k]? = some i) {op : Opcode} {operand : Operand}
    (shows : (Item.plain op operand).Shows offset marks i) (next : op.info.flow = .next)
    (a : Activation) :
    m.Leads body ⟨offset k, a⟩ (offset (k + 1)) (m.execute op operand a) := by
  obtain ⟨rfl, rfl⟩ := shows
  obtain ⟨place, behind⟩ := placed.place found
  obtain ⟨notRet, none⟩ := straight next
  have finds := placed.find?_eq found
  cases result : m.execute i.opcode i.operand a with
  | ok a' => exact .single (by simp [step, finds, notRet, none, result, place, behind])
  | error trap => exact fun _ => ⟨_, .refl, by simp [step, finds, notRet, none, result]⟩

/-- A branch goes to the place of its label or behind itself. -/
theorem step_branch (m : Machine) (placed : Placed body.instructions items marks offset)
    (found : body.instructions[k]? = some i) {label : Label} {target : Nat}
    (shows : (Item.branch .ifTrue false label).Shows offset marks i)
    (mark : marks[label.id]? = some target) {taken : Bool} {a a' : Activation}
    (tests : a.test .ifTrue = .ok (taken, a')) :
    m.step body ⟨offset k, a⟩ = .ok ⟨if taken then offset target else offset (k + 1), a'⟩ := by
  obtain ⟨opcode, operand⟩ := shows
  obtain ⟨place, next⟩ := placed.place found
  have finds := placed.find?_eq found
  have branches : i.opcode ≠ .ret ∧ i.opcode.condition? = some .ifTrue := by
    rcases opcode with opcode | opcode <;> rw [opcode] <;> exact ⟨by decide, rfl⟩
  have behind : offset k + i.opcode.size = offset (k + 1) := next.symm
  simp [step, finds, branches.1, branches.2, operand, tests, mark, place, behind,
    List.getD_eq_getElem?_getD]

end Machine

namespace Block
variable {m : Machine} {body : MethodBody} {offset : Nat → Nat} {marks : List Nat} {b : Block}
  {label slot start : Nat} {type : ClosedType}

/-- What is run between the two copies of a value. -/
theorem Stands.kept (stands : (keeping type b).Stands body offset marks label slot start) :
    b.Stands body offset marks label (slot + 1) (start + 2) := by
  constructor
  · intro j item found
    have inside := (List.getElem?_eq_some_iff.mp found).1
    rw [Nat.add_assoc]
    refine stands.shows ?_
    rw [items, List.getElem?_append_left (by simpa [Nat.add_comm 2] using inside),
      List.getElem?_append_right (by simp)]
    simpa using found
  · exact stands.marks

theorem Stands.reload (stands : (keeping type b).Stands body offset marks label slot start) :
    ∃ i, body.instructions[start + (2 + b.effects.length)]? = some i ∧
      (Form.loadLocal slot).item.Shows offset marks i := by
  have before : ([Item.plain .dup .none, (Form.storeLocal slot).item] ++
      b.items label (slot + 1)).length = 2 + b.effects.length := by
    simp [items_length]
    omega
  refine stands.shows ?_
  rw [items, List.getElem?_append_right (Nat.le_of_eq before), before, Nat.sub_self]
  rfl

/-- Control goes on behind the instructions of a lawful block. -/
theorem flow_of_callable {op : Opcode} (callable : Encode.Callable op) : op.info.flow = .next := by
  revert callable
  cases op <;> decide

/-- The machine goes through the instructions of a block as the block runs. -/
theorem perform_leads {items : List Item} (lawful : b.Lawful)
    (placed : Placed body.instructions items marks offset)
    (stands : b.Stands body offset marks label slot start) (a : Activation) :
    m.Leads body ⟨offset start, a⟩ (offset (start + b.effects.length)) (b.perform m slot a) := by
  induction b generalizing label slot start a with
  | skip => exact .refl
  | fault => exact lawful.elim
  | plain op operand =>
    obtain ⟨i, found, shows⟩ := stands.shows (j := 0) rfl
    exact Machine.leads_plain placed found shows lawful.2.1 a
  | call op callee =>
    obtain ⟨i, found, shows⟩ := stands.shows (j := 0) rfl
    exact Machine.leads_plain placed found shows (flow_of_callable lawful.1) a
  | seq former latter ihFormer ihLatter =>
    refine (ihFormer lawful.1 stands.first a).bind fun a _ => ?_
    have latterLeads := ihLatter lawful.2 stands.second a
    rwa [Nat.add_assoc, ← List.length_append] at latterLeads
  | spill type =>
    obtain ⟨store, foundStore, showsStore⟩ := stands.shows (j := 0) rfl
    obtain ⟨load, foundLoad, showsLoad⟩ := stands.shows (j := 1) rfl
    refine (Machine.leads_plain placed foundStore showsStore
      (Form.storeLocal_has slot).1.2.1 a).bind fun a _ => ?_
    exact Machine.leads_plain placed foundLoad showsLoad (Form.loadLocalAddress_has slot).1.2.1 a
  | keeping type b ih =>
    obtain ⟨copy, foundCopy, showsCopy⟩ := stands.shows (j := 0) rfl
    obtain ⟨store, foundStore, showsStore⟩ := stands.shows (j := 1) rfl
    obtain ⟨load, foundLoad, showsLoad⟩ := stands.reload
    have whole : start + (keeping type b).effects.length = start + (2 + b.effects.length) + 1 := by
      simp [effects]
      omega
    rw [whole]
    refine (Machine.leads_plain placed foundCopy showsCopy dup_has.1.2.1 a).bind fun a _ => ?_
    refine (Machine.leads_plain placed foundStore showsStore
      (Form.storeLocal_has slot).1.2.1 a).bind fun a _ => ?_
    have kept := ih lawful stands.kept a
    rw [Nat.add_assoc] at kept
    refine kept.bind fun a _ => ?_
    exact Machine.leads_plain placed foundLoad showsLoad (Form.loadLocal_has slot).1.2.1 a
  | orElse left right ihLeft ihRight =>
    have whole : start + (orElse left right).effects.length =
        start + left.effects.length + 3 + right.effects.length := by
      simp [effects]
      omega
    obtain ⟨copy, foundCopy, showsCopy⟩ := stands.test (j := 0) rfl
    obtain ⟨jump, foundJump, showsJump⟩ := stands.test (j := 1) rfl
    obtain ⟨drop, foundDrop, showsDrop⟩ := stands.test (j := 2) rfl
    rw [whole]
    refine (ihLeft lawful.1 stands.leftSide a).bind fun a _ => ?_
    refine (Machine.leads_plain placed foundCopy showsCopy dup_has.1.2.1 a).bind fun a _ => ?_
    cases tests : a.test .ifTrue with
    | error trap => exact fun other => absurd (Activation.test_undefined tests) other
    | ok result =>
      obtain ⟨taken, a⟩ := result
      have steps := Machine.step_branch m placed foundJump showsJump stands.done tests
      cases taken with
      | true => exact .single steps
      | false =>
        refine .after (.single steps) ?_
        exact (Machine.leads_plain placed foundDrop showsDrop pop_has.1.2.1 a).bind fun a _ =>
          ihRight lawful.2.1 stands.rightSide a

end Block

/-- In a method whose code runs to its end the machine comes to the return. -/
theorem MethodBody.reaches_ret {m : Machine} {body : MethodBody} {locals : List ClosedType}
    {b : Block} {hasValue : Bool} {returnType : Option ClosedType} {a final : Activation}
    (assembles : assemble locals b hasValue returnType = .ok body)
    (performs : b.perform m locals.length a = .ok final) :
    ∃ i ∈ body.instructions, i.opcode = .ret ∧ m.Reaches body ⟨0, a⟩ ⟨i.offset, final⟩ := by
  obtain ⟨⟨lawful, -, -⟩, offset, isOf, -⟩ := assemble_sound assembles
  obtain ⟨i, -, -, found, -, -, -⟩ := isOf.at_index (Nat.le_refl _)
  have leads : m.Leads body ⟨offset 0, a⟩ _ (b.perform m locals.length a) :=
    Block.perform_leads lawful isOf.placed isOf.stands a
  rw [performs, isOf.placed.first, Nat.zero_add, ← (isOf.placed.place found).1] at leads
  exact ⟨i, List.mem_of_getElem? found, (isOf.last_shows found).1, leads⟩

end DebugExpr.Code
