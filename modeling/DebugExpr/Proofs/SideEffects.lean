import DebugExpr.Proofs.CompiledMethods

/-! Code without side effects. Where assignments may not be bound, no bound term has one at any
depth, and the code of such a term stores to temporaries alone: receivers that have no storage are
copied to one. Calls are not looked into, but none is of an accessor that sets an array element. -/
namespace DebugExpr.Bound

/-- The node writes to a variable. -/
def Term.isWrite : Term → Bool
  | .assign .. | .compound .. => true
  | _ => false

/-- Nodes that write are bound only where side effects are allowed. -/
theorem isWrite_eq_false {s : Scope} {t : Term} (formed : t.WellFormed s)
    (pure : s.allowsSideEffects = false) : t.All fun u => u.isWrite = false := by
  intro u member
  have node := formed u member
  cases u with
  | assign =>
    obtain ⟨-, -, -, allowed⟩ := node
    cases pure.symm.trans allowed
  | compound =>
    obtain ⟨-, -, -, allowed, -⟩ := node
    cases pure.symm.trans allowed
  | _ => rfl

end DebugExpr.Bound

namespace DebugExpr.Code
open Metadata Source DebugExpr.Bound

/-- What an instruction does beyond the evaluation stack. -/
inductive Role where
  | other
  | call
  /-- Stores to a local slot. -/
  | localStore
  /-- Stores to an argument, a field, an array element or through a reference. -/
  | stateStore
  deriving DecidableEq, Repr

def Opcode.role : Opcode → Role
  | .call | .callvirt => .call
  | .stloc0 | .stloc1 | .stloc2 | .stloc3 | .stlocS | .stloc => .localStore
  | .stargS | .starg | .stfld | .stsfld | .stobj | .stindRef | .stindI1 | .stindI2 | .stindI4
  | .stindI8 | .stindR4 | .stindR8 | .stelemI | .stelemI1 | .stelemI2 | .stelemI4 | .stelemI8
  | .stelemR4 | .stelemR8 | .stelemRef | .stelem => .stateStore
  | _ => .other

/-- The slot of the local that an instruction accesses, by its form or by its operand. -/
def Opcode.localSlot? (op : Opcode) (operand : Operand) : Option Nat :=
  match op, operand with
  | .ldloc0, _ | .stloc0, _ => some 0
  | .ldloc1, _ | .stloc1, _ => some 1
  | .ldloc2, _ | .stloc2, _ => some 2
  | .ldloc3, _ | .stloc3, _ => some 3
  | _, .localSlot slot => some slot
  | _, _ => none

/-- The instruction stores to temporaries alone, whose slots follow those of the locals, and calls no
accessor that sets an array element. -/
structure Spares (slots : Nat) (op : Opcode) (operand : Operand) : Prop where
  state : op.role ≠ .stateStore
  locals : op.role = .localStore → ∃ slot, op.localSlot? operand = some slot ∧ slots ≤ slot
  calls : op.role = .call → ∀ type rank,
    operand ≠ .member (Callee.element type rank .set).display

theorem Spares.of_other {slots : Nat} {op : Opcode} {operand : Operand} (other : op.role = .other) :
    Spares slots op operand := by
  constructor <;> simp [other]

theorem Spares.weaken {slots more : Nat} {op : Opcode} {operand : Operand} (fewer : slots ≤ more)
    (spares : Spares more op operand) : Spares slots op operand := by
  refine ⟨spares.state, fun isStore => ?_, spares.calls⟩
  obtain ⟨slot, accesses, behind⟩ := spares.locals isStore
  exact ⟨slot, accesses, Nat.le_trans fewer behind⟩

section Forms

theorem slot_role {forms : List Opcode} {byteForm wordForm : Opcode} {role : Role}
    (operand : Operand) (index : Nat) (short : ∀ op ∈ forms, op.role = role)
    (byte : byteForm.role = role) (word : wordForm.role = role) :
    (Form.slot forms byteForm wordForm operand index).opcode.role = role := by
  unfold Form.slot
  split
  · exact short _ (List.mem_of_getElem? ‹_›)
  · split
    · exact byte
    · exact word

theorem loadLocal_role (index : Nat) : (Form.loadLocal index).opcode.role = .other :=
  slot_role _ index (by decide) rfl rfl

theorem loadLocalAddress_role (index : Nat) : (Form.loadLocalAddress index).opcode.role = .other :=
  slot_role _ index (by decide) rfl rfl

theorem loadArgument_role (index : Nat) : (Form.loadArgument index).opcode.role = .other :=
  slot_role _ index (by decide) rfl rfl

theorem loadArgumentAddress_role (index : Nat) :
    (Form.loadArgumentAddress index).opcode.role = .other :=
  slot_role _ index (by decide) rfl rfl

theorem storeLocal_spares (slot : Nat) :
    Spares slot (Form.storeLocal slot).opcode (Form.storeLocal slot).operand := by
  have role : (Form.storeLocal slot).opcode.role = .localStore :=
    slot_role _ slot (by decide) rfl rfl
  have accesses : (Form.storeLocal slot).opcode.localSlot? (Form.storeLocal slot).operand =
      some slot := by
    rcases slot with _ | _ | _ | _ | slot
    · rfl
    · rfl
    · rfl
    · rfl
    · simp only [Form.storeLocal, Form.slot]
      split
      · simp at *
      · split <;> rfl
  exact ⟨by simp [role], fun _ => ⟨slot, accesses, Nat.le_refl slot⟩, by simp [role]⟩

theorem int32_role (value : Int32) : (Form.int32 value).opcode.role = .other := by
  have role {test : Prop} [Decidable test] {yes no : Form} (hyes : yes.opcode.role = .other)
      (hno : no.opcode.role = .other) : (if test then yes else no).opcode.role = .other := by
    split
    · exact hyes
    · exact hno
  unfold Form.int32
  repeat' apply role
  all_goals rfl

end Forms

namespace Callee

/-- The accessor of an array that sets an element. -/
def isSetter : Callee → Bool
  | element _ _ access => access = .set
  | _ => false

/-- How the display ends. -/
def ending : Callee → List Char
  | method _ | accessor _ => [')']
  | getter .. => ['g', 'e', 't']
  | element _ _ access => access.name.toList

theorem toList_suffix_append (text tail : String) : tail.toList <:+ (text ++ tail).toList := by
  rw [String.toList_append]
  exact List.suffix_append _ _

theorem ending_suffix (c : Callee) : c.ending <:+ c.display.toList := by
  cases c with
  | method m => exact toList_suffix_append _ ")"
  | getter p onReceiver =>
    have own : ['g', 'e', 't'] <:+ ".get".toList := ⟨['.'], rfl⟩
    exact own.trans (toList_suffix_append p.displayField ".get")
  | accessor call =>
    have list : [')'] <:+ call.accessor.parameterList.toList := toList_suffix_append _ ")"
    exact list.trans (toList_suffix_append _ _)
  | element type rank access =>
    exact (toList_suffix_append _ access.name).trans (toList_suffix_append _ _)

/-- No other member shows as an accessor that sets an element. -/
theorem display_ne_setter {c : Callee} (other : c.isSetter = false) (type : ClosedType)
    (rank : Nat) : c.display ≠ (Callee.element type rank .set).display := by
  intro same
  have own := c.ending_suffix
  rw [same] at own
  have apart : ¬ c.ending <:+ ['S', 'e', 't'] ∧ ¬ ['S', 'e', 't'] <:+ c.ending := by
    cases c with
    | method | accessor | getter => simp only [ending]; decide
    | element _ _ access =>
      cases access with
      | set => cases other
      | get | address => simp only [ending]; decide
  obtain inside | inside :=
    List.suffix_or_suffix_of_suffix own (ending_suffix (.element type rank .set))
  · exact apart.1 inside
  · exact apart.2 inside

end Callee

namespace Block

/-- The block has no store and no call of a setter of its own. It may use temporaries. -/
def Quiet : Block → Prop
  | skip | fault _ | spill _ => True
  | plain op _ => op.role = .other
  | call op callee => op.role = .call ∧ callee.isSetter = false
  | seq first second | orElse first second => first.Quiet ∧ second.Quiet
  | keeping _ body => body.Quiet

@[simp]
theorem quiet_seq (a b : Block) : (a ++ b).Quiet ↔ a.Quiet ∧ b.Quiet :=
  Iff.rfl

@[simp]
theorem quiet_skip : skip.Quiet :=
  trivial

@[simp]
theorem quiet_op (op : Opcode) : (Block.op op).Quiet ↔ op.role = .other :=
  Iff.rfl

@[simp]
theorem quiet_onMember (op : Opcode) (text : String) :
    (Block.onMember op text).Quiet ↔ op.role = .other :=
  Iff.rfl

@[simp]
theorem quiet_form (f : Form) : (Block.form f).Quiet ↔ f.opcode.role = .other :=
  Iff.rfl

end Block

/-- The instruction of the item stores to temporaries alone. -/
def Item.Spares (slots : Nat) : Item → Prop
  | .plain op operand => Code.Spares slots op operand
  | .branch .. => True

theorem Item.Spares.weaken {slots more : Nat} {item : Item} (fewer : slots ≤ more)
    (spares : item.Spares more) : item.Spares slots := by
  cases item with
  | plain => exact Code.Spares.weaken fewer spares
  | branch => trivial

/-- The temporaries of a block take slots from the first one on. -/
theorem Block.items_spare {b : Block} (quiet : b.Quiet) (label slot : Nat) :
    ∀ item ∈ b.items label slot, item.Spares slot := by
  induction b generalizing label slot with
  | skip | fault => simp [items]
  | plain op operand =>
    rintro item (_ | ⟨_, ⟨⟩⟩)
    exact .of_other quiet
  | call op callee =>
    rintro item (_ | ⟨_, ⟨⟩⟩)
    refine ⟨by simp [quiet.1], by simp [quiet.1], fun _ type rank same => ?_⟩
    exact Callee.display_ne_setter quiet.2 type rank (Operand.member.inj same)
  | seq first second ihFirst ihSecond =>
    refine List.forall_mem_append.mpr ⟨ihFirst quiet.1 label slot, fun item member => ?_⟩
    exact (ihSecond quiet.2 _ _ item member).weaken (Nat.le_add_right ..)
  | orElse left right ihLeft ihRight =>
    refine List.forall_mem_append.mpr ⟨List.forall_mem_append.mpr
      ⟨ihLeft quiet.1 _ slot, ?_⟩, fun item member => ?_⟩
    · have dup : Opcode.dup.role = .other := rfl
      have pop : Opcode.pop.role = .other := rfl
      simp [Item.Spares, Code.Spares.of_other, dup, pop]
    · exact (ihRight quiet.2 _ _ item member).weaken (Nat.le_add_right ..)
  | spill type =>
    have load := loadLocalAddress_role slot
    simpa [items, Form.item, Item.Spares] using ⟨storeLocal_spares slot, .of_other load⟩
  | keeping type body ih =>
    have dup : Opcode.dup.role = .other := rfl
    have load := loadLocal_role slot
    refine List.forall_mem_append.mpr ⟨List.forall_mem_append.mpr ⟨?_, fun item member => ?_⟩, ?_⟩
    · simpa [Form.item, Item.Spares] using ⟨.of_other dup, storeLocal_spares slot⟩
    · exact (ih quiet _ _ item member).weaken (Nat.le_succ slot)
    · simpa [Form.item, Item.Spares] using Code.Spares.of_other load

theorem Item.Spares.shown {slots : Nat} {item : Item} {i : Instruction} {offset : Nat → Nat}
    {marks : List Nat} (shows : item.Shows offset marks i) (spares : item.Spares slots) :
    Code.Spares slots i.opcode i.operand := by
  cases item with
  | plain op operand =>
    obtain ⟨opcode, shown⟩ := shows
    rw [opcode, shown]
    exact spares
  | branch condition wide label =>
    refine .of_other ?_
    obtain opcode | opcode := shows.1 <;> rw [opcode] <;> cases condition <;> rfl

/-- A method of a quiet block stores to temporaries alone. -/
theorem assemble_spares {locals : List ClosedType} {b : Block} {hasValue : Bool}
    {returnType : Option ClosedType} {m : MethodBody} (quiet : b.Quiet)
    (assembled : assemble locals b hasValue returnType = .ok m) :
    ∀ i ∈ m.instructions, Spares locals.length i.opcode i.operand := by
  intro i member
  obtain ⟨-, offset, isOf, -⟩ := assemble_sound assembled
  obtain ⟨k, found⟩ := List.mem_iff_getElem?.mp member
  obtain ⟨item, isItem⟩ : ∃ item, (b.methodItems locals.length)[k]? = some item := by
    have inside := (List.getElem?_eq_some_iff.mp found).1
    rw [isOf.placed.length] at inside
    exact ⟨_, List.getElem?_eq_getElem inside⟩
  refine Item.Spares.shown (isOf.placed.shows found isItem) ?_
  obtain inBlock | ret := List.mem_append.mp (List.mem_of_getElem? isItem)
  · exact Block.items_spare quiet 0 locals.length item inBlock
  · rw [List.mem_singleton.mp ret]
    exact .of_other rfl

section Leaves
open Block

theorem pushIndirect_quiet (type : ClosedType) : (pushIndirect type).Quiet := by
  unfold pushIndirect
  split
  · rename_i p _
    cases p <;> rfl
  · split <;> rfl

theorem callElement_quiet {access : ElementAccess} (reads : access ≠ .set) (type : ClosedType)
    (rank : Nat) : (callElement type rank access).Quiet := by
  unfold callElement
  split
  · trivial
  · exact ⟨rfl, by simpa [Callee.isSetter] using reads⟩

theorem pushElement_quiet (element : ClosedType) (rank : Nat) :
    (pushElement element rank).Quiet := by
  unfold pushElement
  split
  · split
    · rename_i p _
      cases p <;> rfl
    · split <;> rfl
  · exact callElement_quiet (by simp) element rank

theorem pushElementAddress_quiet (element : ClosedType) (rank : Nat) :
    (pushElementAddress element rank).Quiet := by
  unfold pushElementAddress
  split
  · rfl
  · exact callElement_quiet (by simp) element rank

theorem pushConstant_quiet (value : Constant) : (pushConstant value).Quiet := by
  cases value with
  | bool | int32 => exact int32_role _
  | int64 | string => rfl

theorem callAccessor_quiet (o : Pseudo.Occurrence) : (callAccessor o).Quiet := by
  refine ⟨?_, rfl, rfl⟩
  unfold pushArgument
  split
  · trivial
  · exact int32_role _
  · rfl
  · rfl

theorem narrowPseudo_quiet (o : Pseudo.Occurrence) : (narrowPseudo o).Quiet := by
  unfold narrowPseudo
  split
  · exact pushIndirect_quiet _
  · split
    · split <;> rfl
    · trivial

theorem convertNumeric?_role {source target : Primitive} {op : Opcode}
    (converts : convertNumeric? source target = some op) : op.role = .other := by
  revert converts
  unfold convertNumeric? convertSmall
  cases target <;> (repeat' split) <;> rintro ⟨⟩ <;> rfl

theorem convertTop_quiet (kind : Conversion) (source : Option ClosedType) (target : ClosedType) :
    (convertTop kind source target).Quiet := by
  unfold convertTop
  split
  · trivial
  · trivial
  · split
    · rfl
    · trivial
  · rfl
  · rfl
  · split
    · trivial
    · split
      · exact convertNumeric?_role ‹_›
      · trivial

theorem callOpcode_role (receiver : Option Term) : (callOpcode receiver).role = .call := by
  unfold callOpcode
  split
  · rfl
  · split <;> rfl

theorem arithmetic_role (op : BinaryOp) (isUnsigned : Bool) :
    (arithmetic op isUnsigned).role = .other := by
  cases op <;> cases isUnsigned <;> rfl

end Leaves

/-- Reading a term, by its value or by its address, is quiet. -/
structure Lowering.Quiet (l : Lowering) : Prop where
  value : l.value.Quiet
  address : l.address.Quiet

theorem spill_quiet (t : Term) {value : Block} (quiet : value.Quiet) : (spill t value).Quiet := by
  unfold spill withType
  split
  · exact ⟨quiet, trivial⟩
  · trivial

theorem readOnly_quiet (t : Term) {value : Block} (quiet : value.Quiet) :
    (Lowering.readOnly t value).Quiet :=
  ⟨quiet, spill_quiet t quiet⟩

theorem pushReceiver_quiet (t : Term) {l : Lowering} (quiet : l.Quiet) (needsAddress : Bool) :
    (pushReceiver t l needsAddress).Quiet := by
  unfold pushReceiver
  split
  · exact quiet.address
  · exact quiet.value

theorem pushAll_quiet {ts : List Term} (quiet : ∀ t ∈ ts, (lower t).Quiet) :
    (pushAll ts).Quiet := by
  induction ts with
  | nil => trivial
  | cons t rest ih =>
    rw [List.forall_mem_cons] at quiet
    exact ⟨quiet.1.value, ih quiet.2⟩

theorem pushArguments_quiet {args : List (Bool × Term)}
    (quiet : ∀ arg ∈ args, (lower arg.2).Quiet) : (pushArguments args).Quiet := by
  induction args with
  | nil => trivial
  | cons arg rest ih =>
    rw [List.forall_mem_cons] at quiet
    refine ⟨?_, ih quiet.2⟩
    split
    · exact quiet.1.address
    · exact quiet.1.value

/-- A term without writes is read without stores. -/
theorem lower_quiet {t : Term} (reads : t.All fun u => u.isWrite = false) : (lower t).Quiet := by
  induction t, reads using Term.All.induction with
  | null => exact readOnly_quiet _ rfl
  | constant value type => exact readOnly_quiet _ (pushConstant_quiet value)
  | localVar index type => exact ⟨loadLocal_role index, loadLocalAddress_role index⟩
  | parameter index byRef type =>
    have load := loadArgument_role index
    cases byRef with
    | false => exact ⟨load, loadArgumentAddress_role index⟩
    | true => exact ⟨⟨load, pushIndirect_quiet type⟩, load⟩
  | this type =>
    refine readOnly_quiet _ ⟨loadArgument_role 0, ?_⟩
    split
    · rfl
    · trivial
  | pseudo o =>
    have value : (callAccessor o ++ narrowPseudo o).Quiet :=
      ⟨callAccessor_quiet o, narrowPseudo_quiet o⟩
    simp only [lower]
    split
    · exact ⟨value, callAccessor_quiet o⟩
    · exact readOnly_quiet _ value
  | staticField f => exact ⟨rfl, rfl⟩
  | field receiver f _ quiet =>
    have value : (pushReceiver receiver (lower receiver) false ++
        Block.onMember .ldfld f.displayField).Quiet := ⟨pushReceiver_quiet _ quiet _, rfl⟩
    refine ⟨value, ?_⟩
    simp only [lower]
    split
    · exact ⟨pushReceiver_quiet _ quiet _, rfl⟩
    · exact spill_quiet _ value
  | staticProperty p => exact readOnly_quiet _ ⟨rfl, rfl⟩
  | property receiver p _ quiet =>
    exact readOnly_quiet _ ⟨pushReceiver_quiet _ quiet _, callOpcode_role _, rfl⟩
  | staticCall m args _ quiet => exact readOnly_quiet _ ⟨pushArguments_quiet quiet, rfl, rfl⟩
  | call receiver m args _ quietReceiver quiet =>
    refine readOnly_quiet _ ⟨⟨pushReceiver_quiet _ quietReceiver _, ?_⟩, callOpcode_role _, rfl⟩
    exact pushArguments_quiet quiet
  | element array indices type _ quietArray quiet =>
    have operands : ((lower array).value ++ pushAll indices).Quiet :=
      ⟨quietArray.value, pushAll_quiet quiet⟩
    exact ⟨⟨operands, pushElement_quiet _ _⟩, operands, pushElementAddress_quiet _ _⟩
  | conversion kind operand type _ quiet =>
    exact readOnly_quiet _ ⟨quiet.value, convertTop_quiet _ _ _⟩
  | negate operand _ quiet => exact readOnly_quiet _ ⟨quiet.value, rfl⟩
  | binary op left right type _ first second =>
    exact readOnly_quiet _ ⟨⟨first.value, second.value⟩, arithmetic_role _ _⟩
  | coalesce left right type _ first second => exact readOnly_quiet _ ⟨first.value, second.value⟩
  | assign target value type reads => cases reads.node
  | compound op target value type reads => cases reads.node

theorem discard_quiet {t : Term} (reads : t.All fun u => u.isWrite = false) :
    (discard t).Quiet := by
  unfold discard
  split
  · cases reads.node
  · cases reads.node
  · refine ⟨(lower_quiet reads).value, ?_⟩
    split
    · rfl
    · trivial

end DebugExpr.Code

namespace DebugExpr
open Metadata DebugExpr.Bound

theorem Task.code_quiet {s : Scope} {task : Task} (formed : task.WellFormed s)
    (pure : s.allowsSideEffects = false) : task.code.Quiet := by
  cases task with
  | value t => exact (Code.lower_quiet (isWrite_eq_false formed.1 pure)).value
  | effect t => exact Code.discard_quiet (isWrite_eq_false formed pure)

/-- An expression that is compiled without side effects stores to temporaries alone. -/
theorem compile_spares {s : Scope} {source : String} {options : Options} {c : Compiled}
    (noSideEffects : options.noSideEffects = true)
    (compiled : compile s source options = .ok c) :
    ∀ i ∈ c.method.instructions, Code.Spares s.frame.locals.length i.opcode i.operand := by
  obtain ⟨task, bound, compiled⟩ := bind_eq_ok.mp compiled
  have quiet := Task.code_quiet (Task.ofExpression_wellFormed bound) (by simp [noSideEffects])
  simpa using Code.assemble_spares quiet (Task.compile_eq_ok compiled)

section Instance

/-- A value type with a property, and a static method that answers with such a value. -/
def gauge : TypeDefinition :=
  TypeDeclaration.define
    { fullName := "Gauge"
      kind := .valueType
      properties := [⟨"Level", .ofPrimitive .int32, false⟩]
      methods := [⟨"Read", true, [], [], some (.plain "Gauge")⟩] }
    (.typeDefinition 1)

/-- Stopped in the static method, with one local. -/
def gaugeScope : Scope :=
  { Sample.scope [] [] with
    snapshot :=
      (Snapshot.empty.add Sample.core).add (.ofDefinitions ⟨"App", ⟨1, 0, 0, 0⟩, none, none⟩ [gauge])
    frame := ⟨⟨1⟩, .named ⟨1⟩ gauge [], "Read", true, [], [⟨"x", Sample.type .int32⟩]⟩ }

/-- The property of the value that is returned is read from a copy in a temporary. -/
theorem gauge_spares : ∃ c, compile gaugeScope "Read().Level" { noSideEffects := true } = .ok c ∧
    c.method.instructions.any (·.opcode.role = .localStore) = true ∧
    ∀ i ∈ c.method.instructions, Code.Spares 1 i.opcode i.operand := by
  obtain ⟨c, compiled, stores⟩ : ∃ c,
      compile gaugeScope "Read().Level" { noSideEffects := true } = .ok c ∧
        c.method.instructions.any (·.opcode.role = .localStore) = true :=
    exists_ok_of_any (by decide +kernel)
  exact ⟨c, compiled, stores, compile_spares rfl compiled⟩

end Instance

end DebugExpr
