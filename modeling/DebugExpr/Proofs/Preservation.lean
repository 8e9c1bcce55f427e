import DebugExpr.Code.Lower
import DebugExpr.Proofs.BareBlocks
import DebugExpr.Proofs.BlockExecution
import DebugExpr.Proofs.SampleScope
import DebugExpr.Proofs.SimpleTerms
import DebugExpr.Proofs.SlotArithmetic
import DebugExpr.Proofs.StackVerification

/-! Code of simple terms. The method of a simple term that was bound, run on the machine, ends as the
evaluation of the term does: it returns the value and leaves the variables with the same contents, or
it ends with the same trap. -/
namespace DebugExpr.Code
open Metadata Source DebugExpr.Bound

variable {kinds : Memory (Option Kind)} {kind : Kind} {t target : Term} {x : Variable}
  {memory : Memory Value}

section Forms
variable {c : Config}

theorem execute_slot {forms : List Opcode} {byteForm wordForm : Opcode} {operand : Operand}
    {index : Nat} {result : Except Trap Config}
    (implicit : ∀ op, forms[index]? = some op → execute kinds op .none c = result)
    (byte : execute kinds byteForm operand c = result)
    (word : execute kinds wordForm operand c = result) :
    (Block.form (Form.slot forms byteForm wordForm operand index)).run kinds c = result := by
  unfold Form.slot
  split
  · rename_i op found
    exact implicit op found
  · split
    · exact byte
    · exact word

theorem loadLocal_run (index : Nat) :
    (Block.form (.loadLocal index)).run kinds c = c.load (.local index) := by
  refine execute_slot (fun op found => ?_) rfl rfl
  rcases index with _ | _ | _ | _ | index <;> cases found <;> rfl

theorem storeLocal_run (index : Nat) :
    (Block.form (.storeLocal index)).run kinds c = c.store kinds (.local index) := by
  refine execute_slot (fun op found => ?_) rfl rfl
  rcases index with _ | _ | _ | _ | index <;> cases found <;> rfl

theorem loadArgument_run (index : Nat) :
    (Block.form (.loadArgument index)).run kinds c = c.load (.argument index) := by
  refine execute_slot (fun op found => ?_) rfl rfl
  rcases index with _ | _ | _ | _ | index <;> cases found <;> rfl

theorem storeArgument_run (index : Nat) :
    (Block.form (.storeArgument index)).run kinds c = c.store kinds (.argument index) :=
  execute_slot (fun op found => by cases found) rfl rfl

/-- A constant of one byte is extended to the whole. -/
theorem signExtend_toInt8 {value : Int32} (least : -128 ≤ value) (greatest : value ≤ 127) :
    value.toInt8.toBitVec.signExtend 32 = value.toBitVec := by
  have least : -128 ≤ value.toInt := Int32.le_iff_toInt_le.mp least
  have greatest : value.toInt ≤ 127 := Int32.le_iff_toInt_le.mp greatest
  apply BitVec.eq_of_toInt_eq
  rw [BitVec.toInt_signExtend_of_le (by decide)]
  change value.toInt8.toInt = value.toInt
  rw [Int32.toInt_toInt8, Int.bmod_def]
  omega

theorem form_ite {condition : Prop} [Decidable condition] {f g : Form} {result : Except Trap Config}
    (yes : condition → (Block.form f).run kinds c = result)
    (no : ¬condition → (Block.form g).run kinds c = result) :
    (Block.form (if condition then f else g)).run kinds c = result := by
  split
  · exact yes ‹_›
  · exact no ‹_›

theorem int32_run (value : Int32) :
    (Block.form (.int32 value)).run kinds c = .ok (c.push (.int32 value.toBitVec)) := by
  -- the ten constants with instructions of their own
  iterate 10 refine form_ite (fun same => by rw [same]; rfl) fun _ => ?_
  refine form_ite (fun range => ?_) fun _ => rfl
  change Except.ok (c.push (.int32 (value.toInt8.toBitVec.signExtend 32))) = _
  rw [signExtend_toInt8 range.1 range.2]

theorem int64_run (value : Int64) :
    (Block.form (.int64 value)).run kinds c = .ok (c.push (.int64 value.toBitVec)) :=
  rfl

end Forms

theorem run_append (first second : Block) (c : Config) :
    (first ++ second).run kinds c = first.run kinds c >>= second.run kinds :=
  rfl

theorem run_assoc (first second third : Block) (c : Config) :
    (first ++ second ++ third).run kinds c = (first ++ (second ++ third)).run kinds c := by
  simp only [run_append, bind_assoc]
  rfl

/-- The configuration behind the code of a term that was evaluated to the answer. -/
def behind (used : Bool) (stack : List Slot) (answer : Value × Memory Value) : Config :=
  ⟨if used then slotOf answer.1 :: stack else stack, answer.2.map slotOf⟩

/-- Code goes on from what the code before it has left. -/
theorem map_behind_bind {kind' : Kind} {first : Except Trap (Value × Memory Value)}
    {next : Value × Memory Value → Except Trap (Value × Memory Value)}
    {code : Config → Except Trap Config} {stack : List Slot} {used : Bool} {result : List Slot}
    (delivers : Delivers kinds kind' first)
    (further : ∀ value memory, value.Of kind' → memory.Typed kinds →
      code ⟨slotOf value :: stack, memory.map slotOf⟩ =
        (next (value, memory)).map (behind used result)) :
    first.map (behind true stack) >>= code = (first >>= next).map (behind used result) := by
  match first with
  | .error trap => rfl
  | .ok (value, memory) => exact further value memory delivers.1 delivers.2

/-- The code of a term evaluates it. -/
def Evaluates (kinds : Memory (Option Kind)) (t : Term) (code : Block) : Prop :=
  ∀ (stack : List Slot) (memory : Memory Value), memory.Typed kinds →
    code.run kinds ⟨stack, memory.map slotOf⟩ = (t.eval memory).map (behind true stack)

/-- How a variable is used. -/
structure Accesses (x : Variable) (l : Lowering) : Prop where
  value : ∀ (kinds : Memory (Option Kind)) c, l.value.run kinds c = c.load x
  beforeStore : l.beforeStore = .skip
  store : ∀ (kinds : Memory (Option Kind)) c, l.store.run kinds c = c.store kinds x
  direct : l.storesDirectly = true

theorem lower_accesses (isVariable : t.asVariable? = some x) : Accesses x (lower t) := by
  obtain ⟨index, type, rfl, rfl⟩ | ⟨index, type, rfl, rfl⟩ := Term.asVariable?_eq_some isVariable
  · exact ⟨fun _ _ => loadLocal_run index, rfl, fun _ _ => storeLocal_run index, rfl⟩
  · exact ⟨fun _ _ => loadArgument_run index, rfl, fun _ _ => storeArgument_run index, rfl⟩

theorem load_eq {value : Value} (holds : memory.get? x = some value) (stack : List Slot) :
    Config.load ⟨stack, memory.map slotOf⟩ x = .ok (behind true stack (value, memory)) := by
  simp [Config.load, Memory.get?_map, holds, behind, Config.push]

theorem store_eq {value : Value} (known : kinds.get? x = some (some kind))
    (ofKind : value.Of kind) (stack : List Slot) :
    Config.store kinds ⟨slotOf value :: stack, memory.map slotOf⟩ x =
      .ok ⟨stack, (memory.set x value).map slotOf⟩ := by
  simp only [Config.store, known, held_slotOf ofKind, Memory.map_set]
  rfl

/-- Storing keeps a copy of the value that is used. -/
theorem store_run {value : Value} {l : Lowering} (accesses : Accesses x l)
    (known : kinds.get? x = some (some kind)) (ofKind : value.Of kind) (used : Bool)
    (stack : List Slot) :
    (copyIf used ++ l.store).run kinds ⟨slotOf value :: stack, memory.map slotOf⟩ =
      .ok (behind used stack (value, memory.set x value)) := by
  cases used with
  | true =>
    change l.store.run kinds ⟨slotOf value :: slotOf value :: stack, memory.map slotOf⟩ = _
    rw [accesses.store, store_eq known ofKind]
    rfl
  | false =>
    change l.store.run kinds ⟨slotOf value :: stack, memory.map slotOf⟩ = _
    rw [accesses.store, store_eq known ofKind]
    rfl

theorem assignTo_run {value : Term} {l : Lowering} {code : Block} {type : ClosedType}
    (accesses : Accesses x l) (isVariable : target.asVariable? = some x)
    (known : kinds.get? x = some (some kind)) (ofKind : value.OfKind kinds kind)
    (evaluates : Evaluates kinds value code) (used : Bool) (stack : List Slot)
    (typed : memory.Typed kinds) (own : ClosedType) :
    (assignTo own l code used).run kinds ⟨stack, memory.map slotOf⟩ =
      ((Term.assign target value type).eval memory).map (behind used stack) := by
  rw [assignTo, accesses.beforeStore, if_pos accesses.direct, Term.eval]
  simp only [run_append]
  change code.run kinds _ >>= _ = _
  rw [evaluates stack memory typed]
  refine map_behind_bind (ofKind.eval_delivers typed) fun v memory ofValue _ => ?_
  rw [store_run accesses known ofValue used stack, Term.writeVariable_eq isVariable]
  rfl

theorem compoundTo_run {op : BinaryOp} {value : Term} {l : Lowering} {code : Block}
    {type own : ClosedType} {p : Primitive} (accesses : Accesses x l)
    (isVariable : target.asVariable? = some x) (known : kinds.get? x = some (some (.integer p)))
    (marked : own.primitive? = some p) (wide : isWide p = true)
    (ofKind : value.OfKind kinds (.integer p)) (evaluates : Evaluates kinds value code) (used : Bool)
    (stack : List Slot) (typed : memory.Typed kinds) :
    (compoundTo op own l code used).run kinds ⟨stack, memory.map slotOf⟩ =
      ((Term.compound op target value type).eval memory).map (behind used stack) := by
  obtain ⟨a, holds, reads, ofTarget⟩ := Term.readVariable_eq isVariable typed known
  obtain ⟨n, rfl, rangeLeft⟩ := ofTarget.eq_integer
  have unsigned : isUnsignedType own = p.isUnsigned := by simp [isUnsignedType, marked]
  simp only [compoundTo, if_pos accesses.direct, unsigned, run_assoc]
  rw [run_append, accesses.value, load_eq holds, Term.eval, Term.eval_variable isVariable, reads]
  change (code ++ _).run kinds ⟨_ :: stack, memory.map slotOf⟩ = _
  rw [run_append, evaluates _ memory typed]
  refine map_behind_bind (ofKind.eval_delivers typed) fun b memory ofValue typed => ?_
  obtain ⟨m, rfl, rangeRight⟩ := ofValue.eq_integer
  rw [run_append]
  change execute kinds _ .none _ >>= _ = _
  rw [execute_arithmetic op kinds stack _ wide rangeLeft rangeRight]
  rcases compute_inRange op (isInteger_of_isWide wide) n m with
    ⟨k, computes, range⟩ | ⟨trap, traps, -⟩
  · have ofResult : Value.Of (.integer p k) (.integer p) := ⟨rfl, range⟩
    simp only [Value.compute, computes]
    change (copyIf used ++ l.store).run kinds ⟨slotOf (.integer p k) :: stack, memory.map slotOf⟩ =
      (target.writeVariable (.integer p k) memory).map _
    rw [store_run accesses known ofResult, Term.writeVariable_eq isVariable]
    rfl
  · simp only [Value.compute, traps]
    rfl

theorem pushConstant_run {value : Constant} {type : ClosedType} {p : Primitive} {n : Int}
    (known : kind? type = some (.integer p)) (shown : value = .integer p n)
    (range : inRange p n = true) : Evaluates kinds (.constant value type) (pushConstant value) := by
  intro stack memory _
  have integer := isInteger_of_inRange range
  rw [Term.eval_constant known shown range, shown, Constant.integer]
  split
  · rename_i long
    have wide : bits p = 64 := (bits_eq_64 integer).mpr long
    rw [pushConstant, int64_run, Int64.toBitVec_ofInt]
    simp [Except.map, behind, slotOf, wide, Config.push]
  · rename_i short
    have narrow : bits p ≠ 64 := mt (bits_eq_64 integer).mp short
    rw [pushConstant, int32_run, Int32.toBitVec_ofInt]
    simp [Except.map, behind, slotOf, narrow, Config.push]

theorem numeric_run {operand : Term} {type source : ClosedType} {p q : Primitive} {code : Block}
    (ofOperand : operand.OfKind kinds (.integer q)) (integer : isInteger p = true)
    (typed : operand.type? = some source) (marked : source.primitive? = some q)
    (evaluates : Evaluates kinds operand code) :
    Evaluates kinds (.conversion (.numeric p) operand type)
      (code ++ convertTop (.numeric p) operand.type? type) := by
  intro stack memory typedMemory
  rw [run_append, evaluates stack memory typedMemory, Term.eval]
  refine map_behind_bind (ofOperand.eval_delivers typedMemory) fun value memory ofValue _ => ?_
  obtain ⟨n, rfl, range⟩ := ofValue.eq_integer
  simp only [convertTop, typed, Option.bind_some, marked]
  cases converts : convertNumeric? q p with
  | none =>
    rw [slotOf_eq range integer converts]
    rfl
  | some op =>
    change execute kinds op .none _ = _
    rcases execute_convert kinds ⟨slotOf (.integer q n) :: stack, memory.map slotOf⟩
      (isInteger_of_inRange range) integer converts with
      ⟨small, same⟩ | ⟨whole, same⟩ | ⟨long, same⟩
    · rw [same, Config.unary]
      simp only [toSmall_slotOf q n small]
      rfl
    · rw [same, Config.unary]
      simp only [toInt32_slotOf q n whole]
      rfl
    · rw [same, Config.unary]
      simp only [toInt64_slotOf range long]
      rfl

theorem binary_run {op : BinaryOp} {left right : Term} {type : ClosedType} {p : Primitive}
    {leftCode rightCode : Block} (ofLeft : left.OfKind kinds (.integer p))
    (ofRight : right.OfKind kinds (.integer p)) (wide : isWide p = true)
    (marked : type.primitive? = some p) (evaluatesLeft : Evaluates kinds left leftCode)
    (evaluatesRight : Evaluates kinds right rightCode) :
    Evaluates kinds (.binary op left right type)
      (leftCode ++ rightCode ++ .op (arithmetic op (isUnsignedType type))) := by
  intro stack memory typed
  have unsigned : isUnsignedType type = p.isUnsigned := by simp [isUnsignedType, marked]
  rw [unsigned, run_assoc, run_append, evaluatesLeft stack memory typed, Term.eval]
  refine map_behind_bind (ofLeft.eval_delivers typed) fun a memory ofA typed => ?_
  rw [run_append, evaluatesRight _ memory typed]
  refine map_behind_bind (ofRight.eval_delivers typed) fun b memory ofB typed => ?_
  obtain ⟨m, rfl, rangeLeft⟩ := ofA.eq_integer
  obtain ⟨n, rfl, rangeRight⟩ := ofB.eq_integer
  change execute kinds _ .none _ = _
  rw [execute_arithmetic op kinds stack _ wide rangeLeft rangeRight]
  simp only [Value.compute]
  cases Bound.compute op p m n <;> rfl

/-- The left side stays just when it is not null. -/
theorem coalesce_run {left right : Term} {type : ClosedType} {leftCode rightCode : Block}
    (ofLeft : left.OfKind kinds .reference) (evaluatesLeft : Evaluates kinds left leftCode)
    (evaluatesRight : Evaluates kinds right rightCode) :
    Evaluates kinds (.coalesce left right type) (.orElse leftCode rightCode) := by
  intro stack memory typed
  rw [Block.run, evaluatesLeft stack memory typed, Term.eval]
  refine map_behind_bind (ofLeft.eval_delivers typed) fun a memory ofA typed => ?_
  cases a with
  | integer => cases ofA.1
  | other => cases ofA
  | reference object =>
    cases object with
    | none => exact evaluatesRight stack memory typed
    | some object => rfl

/-- The code of a term of a kind evaluates it. -/
theorem lower_evaluates (ofKind : t.OfKind kinds kind) : Evaluates kinds t (lower t).value := by
  induction ofKind with
  | null => exact fun stack memory _ => rfl
  | constant known shown range =>
    rw [lower]
    exact pushConstant_run known shown range
  | read isVariable known =>
    intro stack memory typed
    obtain ⟨value, holds, reads, -⟩ := Term.readVariable_eq isVariable typed known
    rw [(lower_accesses isVariable).value, load_eq holds, Term.eval_variable isVariable, reads]
    rfl
  | numeric ofOperand integer typed marked ih =>
    rw [lower]
    exact numeric_run ofOperand integer typed marked ih
  | nullLiteral _ ih | implicitReference _ ih =>
    intro stack memory typed
    rw [lower, Term.eval, ← ih stack memory typed]
    change (lower _).value.run kinds _ >>= Except.ok = _
    exact bind_pure _
  | @negate operand p ofOperand wide ih =>
    intro stack memory typed
    rw [lower, Term.eval]
    change (lower _).value.run kinds _ >>= execute kinds .neg .none = _
    rw [ih stack memory typed]
    refine map_behind_bind (ofOperand.eval_delivers typed) fun value memory ofValue _ => ?_
    obtain ⟨n, rfl, -⟩ := ofValue.eq_integer
    change Config.unary Slot.neg ⟨slotOf (.integer p n) :: stack, memory.map slotOf⟩ = _
    simp only [Config.unary, neg_slotOf wide]
    rfl
  | binary ofLeft ofRight wide marked ihLeft ihRight =>
    rw [lower]
    exact binary_run ofLeft ofRight wide marked ihLeft ihRight
  | coalesce ofLeft _ ihLeft ihRight =>
    rw [lower]
    exact coalesce_run ofLeft ihLeft ihRight
  | assign isVariable known typed ofValue ih =>
    intro stack memory typedMemory
    rw [lower]
    simp only [Lowering.readOnly, withType, typed]
    exact assignTo_run (lower_accesses isVariable) isVariable known ofValue ih true stack
      typedMemory _
  | compound isVariable known typed marked wide ofValue ih =>
    intro stack memory typedMemory
    rw [lower]
    simp only [Lowering.readOnly, withType, typed]
    exact compoundTo_run (lower_accesses isVariable) isVariable known marked wide ofValue ih true
      stack typedMemory

theorem type?_isSome (ofKind : t.OfKind kinds kind) (value : kind ≠ .reference) :
    t.type?.isSome := by
  induction ofKind with
  | null => exact absurd rfl value
  | read isVariable =>
    obtain ⟨_, _, rfl, -⟩ | ⟨_, _, rfl, -⟩ := Term.asVariable?_eq_some isVariable
    · rfl
    · rfl
  | negate _ _ ih => exact ih value
  | _ => rfl

theorem hasValue_of_ofKind (ofKind : t.OfKind kinds kind) : t.hasValue = true := by
  cases ofKind with
  | read isVariable =>
    obtain ⟨_, _, rfl, -⟩ | ⟨_, _, rfl, -⟩ := Term.asVariable?_eq_some isVariable
    · rfl
    · rfl
  | negate ofOperand _ => simp [Term.hasValue, Term.type?, type?_isSome ofOperand (by simp)]
  | _ => rfl

theorem discard_variable (isVariable : t.asVariable? = some x) :
    discard t = (lower t).value ++ .op .pop := by
  obtain ⟨_, _, rfl, -⟩ | ⟨_, _, rfl, -⟩ := Term.asVariable?_eq_some isVariable
  · rfl
  · rfl

/-- The code of a statement evaluates it and leaves nothing on the stack. -/
theorem discard_evaluates (ofKind : t.OfKind kinds kind) (stack : List Slot)
    (typed : memory.Typed kinds) :
    (discard t).run kinds ⟨stack, memory.map slotOf⟩ = (t.eval memory).map (behind false stack) := by
  have hasValue := hasValue_of_ofKind ofKind
  have dropped (plain : discard t = (lower t).value ++ .op .pop) :
      (discard t).run kinds ⟨stack, memory.map slotOf⟩ =
        (t.eval memory).map (behind false stack) := by
    rw [plain, run_append, lower_evaluates ofKind stack memory typed]
    cases t.eval memory <;> rfl
  cases ofKind with
  | assign isVariable known targetTyped ofValue =>
    rw [discard, withType, targetTyped]
    exact assignTo_run (lower_accesses isVariable) isVariable known ofValue
      (lower_evaluates ofValue) false stack typed _
  | compound isVariable known targetTyped marked wide ofValue =>
    rw [discard, withType, targetTyped]
    exact compoundTo_run (lower_accesses isVariable) isVariable known marked wide ofValue
      (lower_evaluates ofValue) false stack typed
  | read isVariable _ => exact dropped (discard_variable isVariable)
  | _ => exact dropped (by simp [discard, hasValue])

theorem variable_temporaries (isVariable : t.asVariable? = some x) :
    (lower t).value.temporaries = [] ∧ (lower t).store.temporaries = [] := by
  obtain ⟨_, _, rfl, -⟩ | ⟨_, _, rfl, -⟩ := Term.asVariable?_eq_some isVariable
  · exact ⟨rfl, rfl⟩
  · exact ⟨rfl, rfl⟩

theorem assignTo_temporaries {l : Lowering} {code : Block} {type : ClosedType} {used : Bool}
    (accesses : Accesses x l) (store : l.store.temporaries = []) (none : code.temporaries = []) :
    (assignTo type l code used).temporaries = [] := by
  have copy : (copyIf used).temporaries = [] := by cases used <;> rfl
  simp [assignTo, accesses.beforeStore, accesses.direct, temporaries_append, none, store, copy,
    Block.temporaries]

theorem compoundTo_temporaries {op : BinaryOp} {l : Lowering} {code : Block} {type : ClosedType}
    {used : Bool} (accesses : Accesses x l) (value : l.value.temporaries = [])
    (store : l.store.temporaries = []) (none : code.temporaries = []) :
    (compoundTo op type l code used).temporaries = [] := by
  have copy : (copyIf used).temporaries = [] := by cases used <;> rfl
  simp [compoundTo, accesses.direct, temporaries_append, none, value, store, copy,
    Block.op, Block.temporaries]

/-- The code of a simple term needs no temporaries. -/
theorem lower_temporaries (ofKind : t.OfKind kinds kind) :
    (lower t).value.temporaries = [] := by
  induction ofKind with
  | null => rfl
  | @constant value type p n known shown range =>
    rw [lower]
    cases value <;> rfl
  | read isVariable _ => exact (variable_temporaries isVariable).1
  | numeric _ _ _ _ ih | nullLiteral _ ih | implicitReference _ ih =>
    rw [lower]
    simp only [Lowering.readOnly, temporaries_append, ih, (convertTop_bare _ _ _).temporaries,
      List.append_nil]
  | negate _ _ ih =>
    rw [lower]
    simp only [Lowering.readOnly, temporaries_append, ih, Block.op, Block.temporaries,
      List.append_nil]
  | binary _ _ _ _ ihLeft ihRight =>
    rw [lower]
    simp only [Lowering.readOnly, temporaries_append, ihLeft, ihRight, Block.op,
      Block.temporaries, List.append_nil]
  | coalesce _ _ ihLeft ihRight =>
    rw [lower]
    simp only [Lowering.readOnly, Block.temporaries, ihLeft, ihRight, List.append_nil]
  | assign isVariable _ typed _ ih =>
    rw [lower]
    simp only [Lowering.readOnly, withType, typed]
    exact assignTo_temporaries (lower_accesses isVariable) (variable_temporaries isVariable).2 ih
  | compound isVariable _ typed _ _ _ ih =>
    have stores := variable_temporaries isVariable
    rw [lower]
    simp only [Lowering.readOnly, withType, typed]
    exact compoundTo_temporaries (lower_accesses isVariable) stores.1 stores.2 ih

theorem discard_temporaries (ofKind : t.OfKind kinds kind) : (discard t).temporaries = [] := by
  have hasValue := hasValue_of_ofKind ofKind
  have dropped (plain : discard t = (lower t).value ++ .op .pop) : (discard t).temporaries = [] := by
    rw [plain, temporaries_append, lower_temporaries ofKind]
    rfl
  cases ofKind with
  | assign isVariable _ typed ofValue =>
    rw [discard, withType, typed]
    exact assignTo_temporaries (lower_accesses isVariable) (variable_temporaries isVariable).2
      (lower_temporaries ofValue)
  | compound isVariable _ typed _ _ ofValue =>
    have stores := variable_temporaries isVariable
    rw [discard, withType, typed]
    exact compoundTo_temporaries (lower_accesses isVariable) stores.1 stores.2
      (lower_temporaries ofValue)
  | read isVariable _ => exact dropped (discard_variable isVariable)
  | _ => exact dropped (by simp [discard, hasValue])

/-- How a method ends that evaluates a term to the answer. -/
def outcomeOf (returns : Bool) : Except Trap (Value × Memory Value) → Outcome
  | .ok (value, memory) =>
    .returned (if returns then some (slotOf value) else none) (memory.map slotOf)
  | .error trap => .trapped trap

/-- The code of a method stands at its begin. -/
theorem MethodBody.IsOf.stands {m : MethodBody} {locals : List ClosedType} {b : Block}
    {hasValue : Bool} {offset : Nat → Nat} (isOf : m.IsOf locals b hasValue offset) :
    b.Stands m offset (b.marks 0) 0 locals.length 0 := by
  constructor
  · intro j item found
    have inside := (List.getElem?_eq_some_iff.mp found).1
    have listed : (b.methodItems locals.length)[j]? = some item := by
      rw [Block.methodItems, List.getElem?_append_left inside, found]
    have bound := (List.getElem?_eq_some_iff.mp listed).1
    rw [← isOf.placed.length] at bound
    have at_ := List.getElem?_eq_getElem bound
    exact ⟨_, by rw [Nat.zero_add]; exact at_, isOf.placed.shows at_ listed⟩
  · intro j n found
    rwa [Nat.zero_add]

/-- A method of code that leaves what it returns ends as the code does. -/
theorem MethodBody.IsOf.ends {m : MethodBody} {locals : List ClosedType} {b : Block}
    {hasValue : Bool} {offset : Nat → Nat} (isOf : m.IsOf locals b hasValue offset)
    {answer : Except Trap (Value × Memory Value)} {c : Config}
    (runs : b.run kinds c = answer.map (behind hasValue []))
    (defined : answer ≠ .error .undefined) :
    m.Ends kinds ⟨0, c⟩ (outcomeOf hasValue answer) := by
  have leads : m.Leads kinds ⟨offset 0, c⟩ _ (b.run kinds c) :=
    Block.run_leads isOf.placed isOf.stands c
  rw [runs, isOf.placed.first, Nat.zero_add] at leads
  match answer with
  | .error trap => exact leads (by rintro rfl; exact defined rfl)
  | .ok (value, memory) =>
    refine leads _ ?_
    obtain ⟨i, -, -, found, -, -, -⟩ := isOf.at_index (Nat.le_refl _)
    have ends : m.Ends kinds ⟨offset b.effects.length, behind hasValue [] (value, memory)⟩ _ :=
      ends_ret isOf.placed found (isOf.last_shows found) _
    cases hasValue <;> exact ends

/-- Whatever the variables hold, a method of a simple bound term ends as the evaluation of the term
does. -/
theorem simple_preserved {s : Scope} {expr : Expr} {t : Term} (regular : s.Regular)
    (bound : s.bind expr = .ok t) (simple : t.Simple) (memory : Memory Value)
    (typed : memory.Typed s.kinds) :
    t.eval memory ≠ .error .undefined ∧
      (∀ m, expressionMethod (s.frame.locals.map (·.type)) t = .ok m →
        m.Ends (m.kinds s.kinds.arguments) ⟨0, [], memory.map slotOf⟩
          (outcomeOf true (t.eval memory))) ∧
      ∀ m, statementMethod (s.frame.locals.map (·.type)) t = .ok m →
        m.Ends (m.kinds s.kinds.arguments) ⟨0, [], memory.map slotOf⟩
          (outcomeOf false (t.eval memory)) := by
  obtain ⟨kind, ofKind, -, -⟩ := kinded_of_simple regular t (Scope.bind_wellFormed bound)
    (Scope.bind_loaded regular bound simple) simple
  have delivers := ofKind.eval_delivers typed
  have defined : t.eval memory ≠ .error .undefined := by
    intro undefined
    rw [undefined] at delivers
    exact delivers rfl
  have known {m : MethodBody} {b : Block} {hasValue : Bool} {offset : Nat → Nat}
      (isOf : m.IsOf (s.frame.locals.map (·.type)) b hasValue offset)
      (none : b.temporaries = []) : m.kinds s.kinds.arguments = s.kinds := by
    simp [MethodBody.kinds, isOf.locals, none, Scope.kinds]
  refine ⟨defined, ?_, ?_⟩
  · intro m compiles
    obtain ⟨-, offset, isOf, -⟩ := assemble_sound compiles
    rw [known isOf (lower_temporaries ofKind)]
    rw [hasValue_of_ofKind ofKind] at isOf
    exact isOf.ends (lower_evaluates ofKind [] memory typed) defined
  · intro m compiles
    obtain ⟨-, offset, isOf, -⟩ := assemble_sound compiles
    rw [known isOf (discard_temporaries ofKind)]
    exact isOf.ends (discard_evaluates ofKind [] typed) defined

section Instance
open Sample

/-- Two local integers. -/
def pairScope : Scope :=
  scope [] [⟨"x", type .int32⟩, ⟨"y", type .int32⟩]

/-- The quotient of the locals after the first one is changed: `(x -= 1) / y`. -/
def quotient : Expr :=
  .binary 0 .divide (.assign 0 (.name 0 "x" []) (some .subtract) (.literal 0 (.integer 1)))
    (.name 0 "y" [])

/-- Seven less one is divided by minus two. -/
theorem quotient_preserved : ∃ t m, pairScope.bind quotient = .ok t ∧
    expressionMethod [type .int32, type .int32] t = .ok m ∧
      m.Ends (m.kinds []) ⟨0, [], ⟨[.int32 7, .int32 (-2)], []⟩⟩
        (.returned (some (.int32 (-3))) ⟨[.int32 6, .int32 (-2)], []⟩) := by
  let memory : Memory Value := ⟨[.integer .int32 7, .integer .int32 (-2)], []⟩
  obtain ⟨t, bound, simple, compiles, outcome⟩ : ∃ t, pairScope.bind quotient = .ok t ∧
      t.subterms.all isSimple = true ∧
      (expressionMethod [type .int32, type .int32] t).toOption.isSome = true ∧
      outcomeOf true (t.eval memory) =
        .returned (some (.int32 (-3))) ⟨[.int32 6, .int32 (-2)], []⟩ :=
    exists_ok_of_any (by decide +kernel)
  obtain ⟨m, compiles⟩ := ok_of_isSome compiles
  have regular : pairScope.Regular := scope_regular (by simp) (by simp)
  have int : kind? (type .int32) = some (.integer .int32) := by decide +kernel
  have holds {n : Int} (range : inRange .int32 n = true) :
      ∀ kind ∈ kind? (type .int32), (Value.integer .int32 n).Of kind := by
    intro kind member
    cases int.symm.trans member
    exact ⟨rfl, range⟩
  have typed : memory.Typed pairScope.kinds := by
    intro x kind? found
    rcases x with index | index
    · rcases index with _ | _ | index
      · cases found
        exact ⟨_, rfl, holds rfl⟩
      · cases found
        exact ⟨_, rfl, holds rfl⟩
      · cases found
    · cases found
  have ends :=
    (simple_preserved regular bound (List.all_eq_true.mp simple) memory typed).2.1 m compiles
  rw [outcome] at ends
  exact ⟨t, m, bound, compiles, ends⟩

end Instance

end DebugExpr.Code
