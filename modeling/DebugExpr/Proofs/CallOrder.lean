import DebugExpr.Proofs.BareBlocks
import DebugExpr.Proofs.SideEffects

/-! Calls in the order of evaluation. Which code a term gets depends on how it is used: for its
value, for its address or as the target of a store. Whichever it is, the code calls the members and
accessors of the term's nodes once each, and in the order in which evaluation completes the nodes.
The accessors of arrays stand apart, since they read and write elements and are no nodes. -/
namespace DebugExpr.Code
open Metadata Source DebugExpr.Bound

/-- The call that a node stands for, if it stands for one. -/
def nodeCall? : Term → Option (Opcode × Callee)
  | .call receiver m _ => some (callOpcode receiver, .method m)
  | .property receiver p => some (callOpcode receiver, .getter p receiver.isSome)
  | .pseudo o => some (.call, .accessor o.call)
  | _ => none

/-- The calls that the nodes of a term stand for, in the order of evaluation. -/
def termCalls (t : Term) : List (Opcode × Callee) :=
  t.postorder.filterMap nodeCall?

theorem termCalls_eq (t : Term) :
    termCalls t = t.parts.flatMap termCalls ++ (nodeCall? t).toList :=
  t.filterMap_postorder nodeCall?

/-- The operand is an accessor of an array, which no other member shows as. -/
def Operand.namesElement : Operand → Bool
  | .member text =>
    [ElementAccess.get, .address, .set].any fun access =>
      access.name.toList.isSuffixOf text.toList
  | _ => false

theorem namesElement_display (c : Callee) :
    (Operand.member c.display).namesElement = c.isElement := by
  have own := c.ending_suffix
  cases c with
  | element type rank access =>
    have ends : access.name.toList <:+ (Callee.element type rank access).display.toList := own
    cases access <;> simp [Operand.namesElement, Callee.isElement, ends]
  | method | getter | accessor =>
    simp only [Operand.namesElement, Callee.isElement, List.any_eq_false]
    intro access _ ends
    obtain inside | inside :=
      List.suffix_or_suffix_of_suffix (List.isSuffixOf_iff_suffix.mp ends) own
    all_goals
      revert inside
      simp only [Callee.ending]
      cases access <;> decide

/-- The call of an instruction, unless it is of an accessor of an array. -/
def memberCall? (op : Opcode) (operand : Operand) : Option (Opcode × Operand) :=
  if op.role = .call ∧ operand.namesElement = false then some (op, operand) else none

/-- The calls of a method in the order of its code, but for those of accessors of arrays. -/
def MethodBody.memberCalls (m : MethodBody) : List (Opcode × Operand) :=
  m.instructions.filterMap fun i => memberCall? i.opcode i.operand

/-- A call as an instruction shows it. -/
def shownCall (call : Opcode × Callee) : Opcode × Operand :=
  (call.1, .member call.2.display)

namespace Block

/-- The calls of a block but for those of accessors of arrays. -/
def memberCalls : Block → List (Opcode × Callee)
  | skip | fault _ | plain .. | spill _ => []
  | call op callee => if callee.isElement then [] else [(op, callee)]
  | seq first second | orElse first second => first.memberCalls ++ second.memberCalls
  | keeping _ body => body.memberCalls

@[simp]
theorem memberCalls_seq (a b : Block) : (a ++ b).memberCalls = a.memberCalls ++ b.memberCalls :=
  rfl

@[simp]
theorem memberCalls_skip : skip.memberCalls = [] :=
  rfl

@[simp]
theorem memberCalls_op (op : Opcode) : (Block.op op).memberCalls = [] :=
  rfl

@[simp]
theorem memberCalls_onMember (op : Opcode) (text : String) :
    (Block.onMember op text).memberCalls = [] :=
  rfl

@[simp]
theorem memberCalls_form (f : Form) : (Block.form f).memberCalls = [] :=
  rfl

@[simp]
theorem memberCalls_spill (type : ClosedType) : (spill type).memberCalls = [] :=
  rfl

@[simp]
theorem memberCalls_keeping (type : ClosedType) (body : Block) :
    (keeping type body).memberCalls = body.memberCalls :=
  rfl

@[simp]
theorem memberCalls_call (op : Opcode) (c : Callee) :
    (call op c).memberCalls = if c.isElement then [] else [(op, c)] :=
  rfl

end Block

/-- The call of an item, unless it is of an accessor of an array. -/
def Item.memberCall? : Item → Option (Opcode × Operand)
  | .plain op operand => Code.memberCall? op operand
  | .branch .. => none

theorem role_of_effect {op : Opcode} (fixed : op.info.effect ≠ .byCaller) : op.role ≠ .call := by
  cases op <;> first | exact absurd rfl fixed | simp [Opcode.role]

theorem role_of_callable {op : Opcode} (callable : Encode.Callable op) : op.role = .call := by
  revert callable
  cases op <;> decide

theorem memberCall?_of_role {op : Opcode} (operand : Operand) (role : op.role ≠ .call) :
    memberCall? op operand = none := by
  simp [memberCall?, role]

theorem Form.memberCall?_eq_none {f : Form} {effect : Effect} (has : f.Has effect) :
    f.item.memberCall? = none :=
  memberCall?_of_role _ (role_of_effect has.1.1)

/-- The instructions of a block make its calls. -/
theorem Block.items_memberCalls {b : Block} (lawful : b.Lawful) (label slot : Nat) :
    (b.items label slot).filterMap Item.memberCall? = b.memberCalls.map shownCall := by
  induction b generalizing label slot with
  | skip | fault => rfl
  | plain op operand =>
    have silent := memberCall?_of_role operand (role_of_effect lawful.1)
    simp [items, memberCalls, Item.memberCall?, silent]
  | call op callee =>
    have role := role_of_callable lawful.1
    cases element : callee.isElement <;>
      simp [items, Item.memberCall?, Code.memberCall?, role, namesElement_display, element,
        shownCall]
  | seq first second ihFirst ihSecond =>
    simp only [items, memberCalls, List.filterMap_append, List.map_append]
    rw [ihFirst lawful.1, ihSecond lawful.2]
  | orElse left right ihLeft ihRight =>
    have test : [Item.plain .dup .none, .branch .ifTrue false ⟨label⟩, .plain .pop .none].filterMap
        Item.memberCall? = [] := rfl
    simp only [items, memberCalls, List.filterMap_append, List.map_append, test, List.append_nil]
    rw [ihLeft lawful.1, ihRight lawful.2.1]
  | spill type =>
    have store := Form.memberCall?_eq_none (Form.storeLocal_has slot)
    have load := Form.memberCall?_eq_none (Form.loadLocalAddress_has slot)
    simp [items, memberCalls, store, load]
  | keeping type body ih =>
    have dup : (Item.plain .dup .none).memberCall? = none := rfl
    have store := Form.memberCall?_eq_none (Form.storeLocal_has slot)
    have load := Form.memberCall?_eq_none (Form.loadLocal_has slot)
    simp [items, memberCalls, dup, store, load, ih lawful]

theorem Item.Shows.memberCall?_eq {item : Item} {i : Instruction} {offset : Nat → Nat}
    {marks : List Nat} (shows : item.Shows offset marks i) :
    Code.memberCall? i.opcode i.operand = item.memberCall? := by
  cases item with
  | plain op operand =>
    obtain ⟨opcode, shown⟩ := shows
    rw [opcode, shown]
    rfl
  | branch condition wide label =>
    apply memberCall?_of_role
    obtain opcode | opcode := shows.1 <;> rw [opcode] <;> cases condition <;> decide

theorem Block.Bare.memberCalls {b : Block} (bare : b.Bare) : b.memberCalls = [] := by
  induction b with
  | skip | fault | plain => rfl
  | call op callee =>
    have element : callee.isElement = true := bare
    simp [element]
  | seq first second ihFirst ihSecond =>
    rw [Block.memberCalls, ihFirst bare.1, ihSecond bare.2, List.append_nil]
  | orElse | spill | keeping => exact bare.elim

theorem callAccessor_calls (o : Pseudo.Occurrence) :
    (callAccessor o).memberCalls = [(.call, .accessor o.call)] := by
  simp [callAccessor, (pushArgument_bare o.call.argument).memberCalls, Callee.isElement]

theorem withType_calls {t : Term} {code : ClosedType → Block} {calls : List (Opcode × Callee)}
    (each : ∀ type, (code type).Lawful → (code type).memberCalls = calls)
    (lawful : (withType t code).Lawful) : (withType t code).memberCalls = calls := by
  revert lawful
  unfold withType
  split
  · exact each _
  · exact False.elim

/-- However a term is used, its code makes the calls of its nodes in order, and the store behind
makes none. -/
structure CallsInOrder (t : Term) : Prop where
  value : (lower t).value.Lawful → (lower t).value.memberCalls = termCalls t
  address : (lower t).address.Lawful → (lower t).address.memberCalls = termCalls t
  beforeStore : (lower t).beforeStore.Lawful → (lower t).beforeStore.memberCalls = termCalls t
  store : (lower t).store.memberCalls = []

namespace CallsInOrder
variable {t target value : Term}

theorem spilled {code : Block} (inOrder : code.Lawful → code.memberCalls = termCalls t)
    (lawful : (spill t code).Lawful) : (spill t code).memberCalls = termCalls t := by
  refine withType_calls (fun type lawful => ?_) lawful
  simpa using inOrder lawful.1

theorem readOnly {code : Block} (lowered : lower t = .readOnly t code)
    (inOrder : code.Lawful → code.memberCalls = termCalls t) : CallsInOrder t := by
  constructor
  · rwa [lowered]
  · rw [lowered]
    exact spilled inOrder
  · rw [lowered]
    exact False.elim
  · rw [lowered]
    rfl

theorem receiver (inOrder : CallsInOrder t) {needsAddress : Bool}
    (lawful : (pushReceiver t (lower t) needsAddress).Lawful) :
    (pushReceiver t (lower t) needsAddress).memberCalls = termCalls t := by
  revert lawful
  unfold pushReceiver
  split
  · exact inOrder.address
  · exact inOrder.value

theorem pushAll {ts : List Term} (inOrder : ∀ t ∈ ts, CallsInOrder t)
    (lawful : (pushAll ts).Lawful) : (Code.pushAll ts).memberCalls = ts.flatMap termCalls := by
  induction ts with
  | nil => rfl
  | cons t rest ih =>
    rw [List.forall_mem_cons] at inOrder
    simp only [Code.pushAll, Block.memberCalls_seq, List.flatMap_cons]
    rw [inOrder.1.value lawful.1, ih inOrder.2 lawful.2]

theorem pushArguments {args : List (Bool × Term)} (inOrder : ∀ arg ∈ args, CallsInOrder arg.2)
    (lawful : (pushArguments args).Lawful) :
    (Code.pushArguments args).memberCalls = args.flatMap fun arg => termCalls arg.2 := by
  induction args with
  | nil => rfl
  | cons arg rest ih =>
    rw [List.forall_mem_cons] at inOrder
    obtain ⟨byRef, t⟩ := arg
    have first : (if byRef then (lower t).address else (lower t).value).memberCalls =
        termCalls t := by
      have lawful := lawful.1
      cases byRef with
      | true => exact inOrder.1.address lawful
      | false => exact inOrder.1.value lawful
    simp only [Code.pushArguments, Block.memberCalls_seq, List.flatMap_cons]
    rw [first, ih inOrder.2 lawful.2]

theorem assignTo {type : ClosedType} {used : Bool} (inOrder : CallsInOrder target)
    (inOrderValue : CallsInOrder value)
    (lawful : (assignTo type (lower target) (lower value).value used).Lawful) :
    (Code.assignTo type (lower target) (lower value).value used).memberCalls =
      termCalls target ++ termCalls value := by
  have before := inOrder.beforeStore lawful.1.1
  have pushed := inOrderValue.value lawful.1.2
  have silent := inOrder.store
  unfold Code.assignTo copyIf keepIf
  split <;> cases used <;> simp [before, pushed, silent]

theorem compoundTo {op : BinaryOp} {type : ClosedType} {used : Bool}
    (inOrder : CallsInOrder target) (inOrderValue : CallsInOrder value)
    (lawful : (compoundTo op type (lower target) (lower value).value used).Lawful) :
    (Code.compoundTo op type (lower target) (lower value).value used).memberCalls =
      termCalls target ++ termCalls value := by
  have silent := inOrder.store
  have load := (pushIndirect_bare type).memberCalls
  have store := (popIndirect_bare type).memberCalls
  unfold Code.compoundTo copyIf keepIf at *
  split at lawful
  · rename_i direct
    have read := inOrder.value lawful.1.1.1.1
    have pushed := inOrderValue.value lawful.1.1.1.2
    cases used <;> simp [direct, read, pushed, silent]
  · rename_i indirect
    have address := inOrder.address lawful.1.1.1.1.1
    have pushed := inOrderValue.value lawful.1.1.2
    cases used <;> simp [indirect, address, pushed, load, store]

theorem pseudo (o : Pseudo.Occurrence) : CallsInOrder (.pseudo o) := by
  have accessor := callAccessor_calls o
  have read : (callAccessor o ++ narrowPseudo o).memberCalls = termCalls (.pseudo o) := by
    rw [Block.memberCalls_seq, accessor, (narrowPseudo_bare o).memberCalls]
    rfl
  cases storage : o.hasStorage with
  | true =>
    constructor <;> rw [lower_stored storage]
    · exact fun _ => read
    · exact fun _ => accessor
    · exact fun _ => accessor
    · exact (popIndirect_bare o.type).memberCalls
  | false => exact .readOnly (by simp [lower, storage]) fun _ => read

theorem field {receiver : Term} (inOrder : CallsInOrder receiver) (f : MemberRef) :
    CallsInOrder (.field (some receiver) f) := by
  have calls : termCalls (.field (some receiver) f) = termCalls receiver := by
    rw [termCalls_eq]
    simp [Term.parts, nodeCall?]
  have value : (pushReceiver receiver (lower receiver) false ++
        Block.onMember .ldfld f.displayField).Lawful →
      (pushReceiver receiver (lower receiver) false ++
        Block.onMember .ldfld f.displayField).memberCalls =
          termCalls (.field (some receiver) f) := by
    rintro ⟨lawful, -⟩
    simp [inOrder.receiver lawful, calls]
  constructor
  · exact value
  · simp only [lower]
    split
    · rintro ⟨lawful, -⟩
      simp [inOrder.receiver lawful, calls]
    · exact spilled value
  · intro lawful
    rw [calls]
    exact inOrder.receiver lawful
  · rfl

theorem element {array : Term} {indices : List Term} (inOrder : CallsInOrder array)
    (inOrderAll : ∀ index ∈ indices, CallsInOrder index) (type : ClosedType) :
    CallsInOrder (.element array indices type) := by
  have operands (lawful : ((lower array).value ++ Code.pushAll indices).Lawful) :
      ((lower array).value ++ Code.pushAll indices).memberCalls =
        termCalls (.element array indices type) := by
    rw [Block.memberCalls_seq, inOrder.value lawful.1,
      pushAll inOrderAll lawful.2, termCalls_eq (.element array indices type)]
    simp [Term.parts, nodeCall?]
  constructor
  · rintro ⟨lawful, -⟩
    simp only [lower]
    rw [Block.memberCalls_seq, operands lawful, (pushElement_bare _ _).memberCalls,
      List.append_nil]
  · rintro ⟨lawful, -⟩
    simp only [lower]
    rw [Block.memberCalls_seq, operands lawful, (pushElementAddress_bare _ _).memberCalls,
      List.append_nil]
  · exact operands
  · exact (popElement_bare type indices.length).memberCalls

end CallsInOrder

theorem lower_callsInOrder (t : Term) : CallsInOrder t := by
  induction t using Term.induction with
  | null => exact .readOnly rfl fun _ => rfl
  | constant value type => exact .readOnly rfl fun _ => (pushConstant_bare value).memberCalls
  | localVar index type => exact ⟨fun _ => rfl, fun _ => rfl, fun _ => rfl, rfl⟩
  | parameter index byRef type =>
    cases byRef with
    | false => exact ⟨fun _ => rfl, fun _ => rfl, fun _ => rfl, rfl⟩
    | true =>
      exact ⟨fun _ => (pushIndirect_bare type).memberCalls, fun _ => rfl, fun _ => rfl,
        (popIndirect_bare type).memberCalls⟩
  | this type =>
    apply CallsInOrder.readOnly rfl
    intro _
    cases value : type.isValueType <;> simp [termCalls, Term.postorder, nodeCall?]
  | pseudo o => exact .pseudo o
  | staticField f => exact ⟨fun _ => rfl, fun _ => rfl, fun _ => rfl, rfl⟩
  | field receiver f ih => exact ih.field f
  | staticProperty p => exact .readOnly rfl fun _ => rfl
  | property receiver p ih =>
    apply CallsInOrder.readOnly rfl
    rintro ⟨lawful, -⟩
    rw [termCalls_eq]
    simp [Term.parts, nodeCall?, ih.receiver lawful, Callee.isElement]
  | staticCall m args ih =>
    apply CallsInOrder.readOnly rfl
    rintro ⟨lawful, -⟩
    rw [termCalls_eq]
    simp [Term.parts, nodeCall?, CallsInOrder.pushArguments ih lawful, Callee.isElement,
      List.flatMap_map, callOpcode]
  | call receiver m args ihReceiver ihArgs =>
    apply CallsInOrder.readOnly rfl
    rintro ⟨⟨lawful, lawfulArgs⟩, -⟩
    rw [termCalls_eq]
    simp [Term.parts, nodeCall?, ihReceiver.receiver lawful,
      CallsInOrder.pushArguments ihArgs lawfulArgs, Callee.isElement, List.flatMap_map]
  | element array indices type ihArray ihIndices => exact ihArray.element ihIndices type
  | conversion kind operand type ih =>
    apply CallsInOrder.readOnly rfl
    rintro ⟨lawful, -⟩
    rw [termCalls_eq, Block.memberCalls_seq, ih.value lawful,
      (convertTop_bare _ _ _).memberCalls]
    simp [Term.parts, nodeCall?]
  | negate operand ih =>
    apply CallsInOrder.readOnly rfl
    rintro ⟨lawful, -⟩
    rw [termCalls_eq, Block.memberCalls_seq, ih.value lawful]
    simp [Term.parts, nodeCall?]
  | binary op left right type ihLeft ihRight =>
    apply CallsInOrder.readOnly rfl
    rintro ⟨⟨lawfulLeft, lawfulRight⟩, -⟩
    rw [termCalls_eq, Block.memberCalls_seq, Block.memberCalls_seq, ihLeft.value lawfulLeft,
      ihRight.value lawfulRight]
    simp [Term.parts, nodeCall?]
  | coalesce left right type ihLeft ihRight =>
    apply CallsInOrder.readOnly rfl
    rintro ⟨lawfulLeft, lawfulRight, -⟩
    rw [termCalls_eq, Block.memberCalls, ihLeft.value lawfulLeft, ihRight.value lawfulRight]
    simp [Term.parts, nodeCall?]
  | assign target value type ihTarget ihValue =>
    apply CallsInOrder.readOnly rfl
    intro lawful
    rw [termCalls_eq, withType_calls (fun _ => ihTarget.assignTo ihValue) lawful]
    simp [Term.parts, nodeCall?]
  | compound op target value type ihTarget ihValue =>
    apply CallsInOrder.readOnly rfl
    intro lawful
    rw [termCalls_eq, withType_calls (fun _ => ihTarget.compoundTo ihValue) lawful]
    simp [Term.parts, nodeCall?]

theorem discard_calls {t : Term} (lawful : (discard t).Lawful) :
    (discard t).memberCalls = termCalls t := by
  unfold discard at lawful ⊢
  split at lawful
  · rename_i target value type
    have target' := lower_callsInOrder target
    have value' := lower_callsInOrder value
    rw [termCalls_eq, withType_calls (fun _ => target'.assignTo value') lawful]
    simp [Term.parts, nodeCall?]
  · rename_i op target value type
    have target' := lower_callsInOrder target
    have value' := lower_callsInOrder value
    rw [termCalls_eq, withType_calls (fun _ => target'.compoundTo value') lawful]
    simp [Term.parts, nodeCall?]
  · rw [Block.memberCalls_seq, (lower_callsInOrder t).value lawful.1]
    split <;> simp

variable {locals : List ClosedType} {b : Block} {hasValue : Bool} {returnType : Option ClosedType}
  {m : MethodBody}

theorem assemble_calls (assembled : assemble locals b hasValue returnType = .ok m) :
    m.memberCalls = b.memberCalls.map shownCall := by
  obtain ⟨⟨lawful, -⟩, offset, isOf, -⟩ := assemble_sound assembled
  have ret : [Item.plain .ret .none].filterMap Item.memberCall? = [] := rfl
  unfold MethodBody.memberCalls
  rw [isOf.placed.filterMap_eq Item.Shows.memberCall?_eq, Block.methodItems,
    List.filterMap_append, ret, List.append_nil]
  exact Block.items_memberCalls lawful 0 locals.length

/-- Whether its value is returned or dropped, the method of a term calls what the nodes of the term
call, once for each node and in the order of evaluation. -/
theorem memberCalls_eq (t : Term) (compiled : expressionMethod locals t = .ok m ∨
      statementMethod locals t = .ok m) :
    m.memberCalls = (t.postorder.filterMap nodeCall?).map shownCall := by
  obtain compiled | compiled := compiled
  · obtain ⟨lawful, -⟩ := (assemble_sound compiled).1
    rw [assemble_calls compiled, (lower_callsInOrder t).value lawful]
    rfl
  · obtain ⟨lawful, -⟩ := (assemble_sound compiled).1
    rw [assemble_calls compiled, discard_calls lawful]
    rfl

section Instance
open Sample

/-- A value type with a counter, and static methods that answer with an array of such values and
with a place in it. -/
def cell : TypeDefinition :=
  TypeDeclaration.define
    { fullName := "Cell"
      kind := .valueType
      fields := [⟨"Count", .ofPrimitive .int32, false⟩]
      methods :=
        [⟨"All", true, [], [], some (.array (.plain "Cell") 1)⟩,
          ⟨"Place", true, [], [], some (.ofPrimitive .int32)⟩] }
    (.typeDefinition 1)

def cellScope : Scope :=
  { scope [] [] with
    snapshot :=
      (Snapshot.empty.add core).add (.ofDefinitions ⟨"App", ⟨1, 0, 0, 0⟩, none, none⟩ [cell])
    frame := ⟨⟨1⟩, .named ⟨1⟩ cell [], "All", true, [], []⟩ }

/-- Adds one to a counter in the array: `All()[Place()].Count += 1`. -/
def countUp : Expr :=
  .assign 0
    (.member 0 (.index 0 (.invoke 0 (.name 0 "All" []) []) [.invoke 0 (.name 0 "Place" []) []])
      "Count" [])
    (some .add) (.literal 0 (.integer 1))

/-- Array and place are asked for once, though the counter is read and written. -/
theorem countUp_calls : ∃ t m, cellScope.bind countUp = .ok t ∧ statementMethod [] t = .ok m ∧
    m.memberCalls =
      [(.call, .member "Cell[] Cell.All()"), (.call, .member "int Cell.Place()")] := by
  obtain ⟨t, bound, compiles, calls⟩ : ∃ t, cellScope.bind countUp = .ok t ∧
      (statementMethod [] t).toOption.isSome = true ∧
        (t.postorder.filterMap nodeCall?).map shownCall =
          [(.call, .member "Cell[] Cell.All()"), (.call, .member "int Cell.Place()")] :=
    exists_ok_of_any (by decide +kernel)
  obtain ⟨m, compiled⟩ := ok_of_isSome compiles
  exact ⟨t, m, bound, compiled, (memberCalls_eq t (.inr compiled)).trans calls⟩

end Instance

end DebugExpr.Code
