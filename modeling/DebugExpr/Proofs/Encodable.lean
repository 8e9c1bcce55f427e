import DebugExpr.Proofs.Methods
import DebugExpr.Proofs.SampleScope
import DebugExpr.Proofs.StackUse

/-! Which bound terms have code. All that can stand in the way is in single nodes: a call with more
operands than a count holds, a store through a reference for which there is no instruction, and a
call that returns nothing where the null literal is expected. A term without such nodes is compiled
whenever its depths and its temporaries have room. -/
namespace DebugExpr.Code
open Metadata Source DebugExpr.Bound Block

/-- A variable that a value can be stored into: through a reference there is no store for a native
integer, and the store of an element has one operand more than its load. -/
def Storable : Term → Prop
  | .parameter _ true type => ¬ IsNative type
  | .pseudo o => ¬ IsNative o.type
  | .element _ indices _ => indices.length + 2 ≤ Encode.maxArguments
  | _ => True

/-- The instructions of a node can be encoded. -/
def Encodable : Term → Prop
  | .call _ m _ => m.params.length + (if m.isStatic then 0 else 1) ≤ Encode.maxArguments
  | .element _ indices _ => indices.length + 1 ≤ Encode.maxArguments
  | .conversion .nullLiteral operand _ => operand.hasValue = true
  | .assign target _ _ => Storable target
  | .compound _ target _ type => (lower target).storesDirectly = true ∨ ¬ IsNative type
  | _ => True

variable {s : Scope} {t : Term}

theorem voids_eq_zero_iff_all : t.voids = 0 ↔ t.All fun u => u.isVoid = false := by
  simp [Term.voids, Term.All, List.countP_eq_zero]

theorem voids_eq_zero : t.voids = 0 ↔ t.isVoid = false ∧ ∀ u ∈ t.parts, u.voids = 0 := by
  simp only [voids_eq_zero_iff_all]
  exact Term.all_iff

/-- The code of a term can be encoded, and misses no value, just when all nodes can. -/
structure EncodesNodes (t : Term) : Prop where
  value : (lower t).value.Lawful ∧ t.voids = 0 ↔ t.All Encodable
  address : t.type?.isSome → ((lower t).address.Lawful ∧ t.voids = 0 ↔ t.All Encodable)
  store : t.isAssignable = true →
    ((lower t).beforeStore.Lawful ∧ (lower t).store.Lawful ∧ t.voids = 0 ↔
      t.All Encodable ∧ Storable t)

namespace EncodesNodes

theorem receiver (encodes : EncodesNodes t) (typed : t.type?.isSome) (needsAddress : Bool) :
    (pushReceiver t (lower t) needsAddress).Lawful ∧ t.voids = 0 ↔ t.All Encodable := by
  unfold pushReceiver
  split
  · exact encodes.address typed
  · exact encodes.value

theorem readOnly {value : Block} (code : lower t = .readOnly t value)
    (fixed : t.isAssignable = false) (encodes : value.Lawful ∧ t.voids = 0 ↔ t.All Encodable) :
    EncodesNodes t := by
  constructor <;> rw [code]
  · exact encodes
  · intro typed
    obtain ⟨type, typed⟩ := Option.isSome_iff_exists.mp typed
    simpa [Lowering.readOnly, spill, withType, typed, Lawful] using encodes
  · simp [fixed]

end EncodesNodes

theorem assignTo_lawful {type : ClosedType} {target : Lowering} {value : Block} {used : Bool} :
    (assignTo type target value used).Lawful ↔
      target.beforeStore.Lawful ∧ target.store.Lawful ∧ value.Lawful := by
  have copy : (copyIf used).Lawful := by
    cases used
    · trivial
    · exact dup_has.1
  unfold assignTo
  split
  · simp [copy]
    tauto
  · have keep : (keepIf used type target.store).Lawful ↔ target.store.Lawful := by
      cases used <;> rfl
    simp [keep]
    tauto

theorem compoundTo_lawful {op : BinaryOp} {type : ClosedType} {target : Lowering} {value : Block}
    {used : Bool} : (compoundTo op type target value used).Lawful ↔
      (if target.storesDirectly then target.value.Lawful ∧ target.store.Lawful
        else target.address.Lawful ∧ ¬ IsNative type) ∧ value.Lawful := by
  have operator := (arithmetic_does op (isUnsignedType type)).1
  have copy : (copyIf used).Lawful := by
    cases used
    · trivial
    · exact dup_has.1
  have duplicate : (Block.op .dup).Lawful := dup_has.1
  have keep : (keepIf used type (popIndirect type)).Lawful ↔ ¬ IsNative type := by
    rw [← popIndirect_lawful]
    cases used <;> rfl
  unfold compoundTo
  split
  · simp [operator, copy]
    tauto
  · simp [operator, duplicate, keep, (pushIndirect_does type).1]
    tauto

theorem pushElement_lawful {element : ClosedType} {rank : Nat} :
    (pushElement element rank).Lawful ↔ rank + 1 ≤ Encode.maxArguments := by
  by_cases single : rank = 1
  · subst single
    have small : 1 + 1 ≤ Encode.maxArguments := by decide
    refine iff_of_true ?_ small
    simp only [pushElement, if_true]
    split
    · exact (loadElement_does _).1
    · split
      · exact (Does.onMember rfl rfl rfl).1
      · exact (Does.op rfl rfl rfl).1
  · simp only [pushElement, single, if_false, callElement_lawful, ElementAccess.further, Nat.add_zero]

theorem pushElementAddress_lawful {element : ClosedType} {rank : Nat} :
    (pushElementAddress element rank).Lawful ↔ rank + 1 ≤ Encode.maxArguments := by
  by_cases single : rank = 1
  · subst single
    exact iff_of_true (Does.onMember rfl rfl rfl).1 (by decide)
  · simp only [pushElementAddress, single, if_false, callElement_lawful, ElementAccess.further, Nat.add_zero]

theorem popElement_lawful {element : ClosedType} {rank : Nat} :
    (popElement element rank).Lawful ↔ rank + 2 ≤ Encode.maxArguments := by
  by_cases single : rank = 1
  · subst single
    have small : 1 + 2 ≤ Encode.maxArguments := by decide
    refine iff_of_true ?_ small
    simp only [popElement, if_true]
    split
    · exact (storeElement_does _).1
    · split
      · exact (Does.onMember rfl rfl rfl).1
      · exact (Does.op rfl rfl rfl).1
  · simp only [popElement, single, if_false, callElement_lawful, ElementAccess.further]

theorem convertTop_lawful {kind : Conversion} {source : Option ClosedType} {type : ClosedType}
    (applies : kind.Applies source type) : (convertTop kind source type).Lawful :=
  (convertTop_does applies).elim And.left And.left

theorem callMethod_lawful {op : Opcode} (callable : Encode.Callable op) (m : MethodRef) :
    (Block.call op (.method m)).Lawful ↔
      m.params.length + (if m.isStatic then 0 else 1) ≤ Encode.maxArguments := by
  have leaves : (Callee.method m).leaves ≤ Encode.maxArguments := by
    simp only [Callee.leaves]
    split <;> decide
  have limit : Encode.maxArguments = 0xFF := rfl
  simp only [Lawful, callable, leaves, true_and, and_true, Callee.takes, MethodRef.popCount]
  omega

theorem callGetter_lawful {op : Opcode} (callable : Encode.Callable op) (p : MemberRef)
    (onReceiver : Bool) : (Block.call op (.getter p onReceiver)).Lawful := by
  refine ⟨callable, ?_, (by decide : 1 ≤ Encode.maxArguments)⟩
  cases onReceiver <;> simp [Callee.takes, Encode.maxArguments]

theorem callOpcode_callable (receiver : Option Term) : Encode.Callable (callOpcode receiver) := by
  unfold callOpcode
  split
  · decide
  · split <;> decide

theorem pushAll_lawful {ts : List Term} (encodes : ∀ u ∈ ts, EncodesNodes u) :
    ((pushAll ts).Lawful ∧ ∀ u ∈ ts, u.voids = 0) ↔ ∀ u ∈ ts, u.All Encodable := by
  induction ts with
  | nil => exact iff_of_true ⟨trivial, by simp⟩ (by simp)
  | cons t rest ih =>
    rw [List.forall_mem_cons] at encodes
    simp only [pushAll, lawful_seq, List.forall_mem_cons, ← encodes.1.value, ← ih encodes.2]
    tauto

theorem pushArguments_lawful {args : List (Bool × Term)}
    (encodes : ∀ arg ∈ args, EncodesNodes arg.2) (typed : ∀ arg ∈ args, arg.2.type?.isSome) :
    ((pushArguments args).Lawful ∧ ∀ arg ∈ args, arg.2.voids = 0) ↔
      ∀ arg ∈ args, arg.2.All Encodable := by
  induction args with
  | nil => exact iff_of_true ⟨trivial, by simp⟩ (by simp)
  | cons arg rest ih =>
    rw [List.forall_mem_cons] at encodes typed
    obtain ⟨byRef, t⟩ := arg
    have first : (if byRef then (lower t).address else (lower t).value).Lawful ∧ t.voids = 0 ↔
        t.All Encodable := by
      cases byRef with
      | true => exact encodes.1.address typed.1
      | false => exact encodes.1.value
    simp only [pushArguments, lawful_seq, List.forall_mem_cons, ← first, ← ih encodes.2 typed.2]
    tauto

/-- A term without parts. -/
theorem leaf_encodes {b : Block} (lawful : b.Lawful) (node : Encodable t) (none : t.parts = [])
    (present : t.isVoid = false) : b.Lawful ∧ t.voids = 0 ↔ t.All Encodable :=
  iff_of_true ⟨lawful, voids_eq_zero.mpr ⟨present, by simp [none]⟩⟩ (.leaf node none)

theorem skip_lawful : Block.skip.Lawful :=
  trivial

theorem leaf_stores {before store : Block} (ready : before.Lawful)
    (stores : store.Lawful ↔ Storable t) (node : Encodable t) (none : t.parts = [])
    (present : t.isVoid = false) :
    before.Lawful ∧ store.Lawful ∧ t.voids = 0 ↔ t.All Encodable ∧ Storable t := by
  rw [stores, ← leaf_encodes ready node none present]
  tauto

theorem onMember_lawful {op : Opcode} {takes leaves : Nat} {text : String}
    (effect : op.info.effect = .fixed takes leaves) (flow : op.info.flow = .next)
    (operand : op.operand = .token) : (Block.onMember op text).Lawful :=
  (Does.onMember effect flow operand).1

section Assignments
variable {target value : Term} {type : ClosedType} {op : BinaryOp} {used : Bool}

theorem assign_encodes
    (stores : (lower target).beforeStore.Lawful ∧ (lower target).store.Lawful ∧ target.voids = 0 ↔
      target.All Encodable ∧ Storable target)
    (encodes : (lower value).value.Lawful ∧ value.voids = 0 ↔ value.All Encodable) :
    (assignTo type (lower target) (lower value).value used).Lawful ∧
      (Term.assign target value type).voids = 0 ↔
    (Term.assign target value type).All Encodable := by
  have nodes : (Term.assign target value type).All Encodable ↔
      (target.All Encodable ∧ Storable target) ∧ value.All Encodable := by
    simp [Term.all_iff (t := .assign target value type), Encodable, Term.parts, and_assoc,
      and_left_comm]
  have voids : (Term.assign target value type).voids = 0 ↔ target.voids = 0 ∧ value.voids = 0 := by
    simp [voids_eq_zero (t := .assign target value type), Term.isVoid, Term.parts]
  rw [nodes, voids, assignTo_lawful, ← stores, ← encodes]
  constructor
  · rintro ⟨⟨ready, store, computes⟩, noneTarget, noneValue⟩
    exact ⟨⟨ready, store, noneTarget⟩, computes, noneValue⟩
  · rintro ⟨⟨ready, store, noneTarget⟩, computes, noneValue⟩
    exact ⟨⟨ready, store, computes⟩, noneTarget, noneValue⟩

theorem storable_of_direct (direct : (lower t).storesDirectly = true) : Storable t := by
  cases t with
  | parameter index byRef type =>
    cases byRef with
    | false => trivial
    | true => cases direct
  | pseudo o =>
    simp only [lower] at direct
    split at direct <;> cases direct
  | element => cases direct
  | _ => trivial

theorem compound_encodes (assignable : target.isAssignable = true) (typed : target.type?.isSome)
    (encodesTarget : EncodesNodes target)
    (encodes : (lower value).value.Lawful ∧ value.voids = 0 ↔ value.All Encodable) :
    (compoundTo op type (lower target) (lower value).value used).Lawful ∧
      (Term.compound op target value type).voids = 0 ↔
    (Term.compound op target value type).All Encodable := by
  have nodes : (Term.compound op target value type).All Encodable ↔
      ((lower target).storesDirectly = true ∨ ¬ IsNative type) ∧
        target.All Encodable ∧ value.All Encodable := by
    simp [Term.all_iff (t := .compound op target value type), Encodable, Term.parts]
  have voids : (Term.compound op target value type).voids = 0 ↔
      target.voids = 0 ∧ value.voids = 0 := by
    simp [voids_eq_zero (t := .compound op target value type), Term.isVoid, Term.parts]
  rw [nodes, voids, compoundTo_lawful, ← encodes]
  cases direct : (lower target).storesDirectly with
  | true =>
    simp only [if_true, true_or, true_and]
    constructor
    · rintro ⟨⟨⟨read, -⟩, computes⟩, noneTarget, noneValue⟩
      exact ⟨encodesTarget.value.mp ⟨read, noneTarget⟩, computes, noneValue⟩
    · rintro ⟨target, computes, noneValue⟩
      obtain ⟨read, noneTarget⟩ := encodesTarget.value.mpr target
      obtain ⟨-, store, -⟩ :=
        (encodesTarget.store assignable).mpr ⟨target, storable_of_direct direct⟩
      exact ⟨⟨⟨read, store⟩, computes⟩, noneTarget, noneValue⟩
  | false =>
    simp only [Bool.false_eq_true, if_false, false_or]
    rw [← encodesTarget.address typed]
    constructor
    · rintro ⟨⟨⟨address, store⟩, computes⟩, noneTarget, noneValue⟩
      exact ⟨store, ⟨address, noneTarget⟩, computes, noneValue⟩
    · rintro ⟨store, ⟨address, noneTarget⟩, computes, noneValue⟩
      exact ⟨⟨⟨address, store⟩, computes⟩, noneTarget, noneValue⟩

end Assignments

namespace EncodesNodes
variable {receiver array operand left right : Term} {indices : List Term}
  {args : List (Bool × Term)} {m : MethodRef} {type : ClosedType} {kind : Conversion}

theorem parameter (index : Nat) (byRef : Bool) (type : ClosedType) :
    EncodesNodes (.parameter index byRef type) := by
  have load := lawful_form (Form.loadArgument_has index)
  cases byRef with
  | false =>
    exact ⟨leaf_encodes load trivial rfl rfl,
      fun _ => leaf_encodes (lawful_form (Form.loadArgumentAddress_has index)) trivial rfl rfl,
      fun _ => leaf_stores skip_lawful
        (iff_of_true (lawful_form (Form.storeArgument_has index)) trivial) trivial rfl rfl⟩
  | true =>
    exact ⟨leaf_encodes ⟨load, (pushIndirect_does type).1⟩ trivial rfl rfl,
      fun _ => leaf_encodes load trivial rfl rfl,
      fun _ => leaf_stores load popIndirect_lawful trivial rfl rfl⟩

theorem pseudo {o : Pseudo.Occurrence} (assignable : o.assignable = o.hasStorage) :
    EncodesNodes (.pseudo o) := by
  have fetch := (callAccessor_does o).1
  have value : (callAccessor o ++ narrowPseudo o).Lawful :=
    ⟨fetch, (narrowPseudo_does o).elim And.left And.left⟩
  cases storage : o.hasStorage with
  | false =>
    exact .readOnly (by simp [lower, storage]) (assignable.trans storage)
      (leaf_encodes value trivial rfl rfl)
  | true =>
    constructor <;> rw [lower_stored storage]
    · exact leaf_encodes value trivial rfl rfl
    · exact fun _ => leaf_encodes fetch trivial rfl rfl
    · exact fun _ => leaf_stores fetch popIndirect_lawful trivial rfl rfl

theorem field (encodes : EncodesNodes receiver) (typed : receiver.type?.isSome) (f : MemberRef) :
    EncodesNodes (.field (some receiver) f) := by
  have encodes := encodes.receiver typed
  have nodes : (Term.field (some receiver) f).All Encodable ↔ receiver.All Encodable := by
    simp [Term.all_iff (t := .field (some receiver) f), Encodable, Term.parts]
  have voids : (Term.field (some receiver) f).voids = 0 ↔ receiver.voids = 0 := by
    simp [voids_eq_zero (t := .field (some receiver) f), Term.isVoid, Term.parts]
  have load : (Block.onMember .ldfld f.displayField).Lawful := onMember_lawful rfl rfl rfl
  have loadAddress : (Block.onMember .ldflda f.displayField).Lawful := onMember_lawful rfl rfl rfl
  have store : (Block.onMember .stfld f.displayField).Lawful := onMember_lawful rfl rfl rfl
  constructor
  · simp [lower, load, nodes, voids, encodes]
  · intro _
    simp only [lower]
    split
    · simp [loadAddress, nodes, voids, encodes]
    · simp [spill, withType, Term.type?, load, nodes, voids, encodes, Lawful]
  · simp [lower, store, nodes, voids, encodes, Storable]

theorem staticCall (encodes : ∀ arg ∈ args, EncodesNodes arg.2)
    (formed : Term.Formed s (.call none m args)) : EncodesNodes (.call none m args) := by
  obtain ⟨-, -, -, fitted⟩ := formed
  have arguments := pushArguments_lawful encodes fun arg member => (fitted arg member).1
  have callable : Encode.Callable .call := ⟨rfl, rfl⟩
  refine .readOnly rfl rfl ?_
  simp only [lawful_seq, callMethod_lawful callable, Term.all_iff (t := .call none m args),
    voids_eq_zero (t := .call none m args), Encodable, Term.isVoid, Term.parts,
    Option.toList_none, List.nil_append, List.forall_mem_map, ← arguments, true_and]
  rw [and_right_comm, and_comm]

theorem call (encodesReceiver : EncodesNodes receiver)
    (encodes : ∀ arg ∈ args, EncodesNodes arg.2)
    (formed : Term.Formed s (.call (some receiver) m args)) :
    EncodesNodes (.call (some receiver) m args) := by
  obtain ⟨-, typed, -, fitted⟩ := formed
  have encodesReceiver := encodesReceiver.receiver (typed receiver rfl) true
  have arguments := pushArguments_lawful encodes fun arg member => (fitted arg member).1
  refine .readOnly rfl rfl ?_
  simp only [lawful_seq, callMethod_lawful (callOpcode_callable (some receiver)),
    Term.all_iff (t := .call (some receiver) m args),
    voids_eq_zero (t := .call (some receiver) m args), Encodable, Term.isVoid, Term.parts,
    Option.toList_some, List.singleton_append, List.forall_mem_cons, List.forall_mem_map,
    ← arguments, ← encodesReceiver, true_and]
  rw [and_right_comm, and_comm, and_and_and_comm]

/-- The store has one operand more than the load and is encodable just when it fits. -/
theorem element (encodesArray : EncodesNodes array) (encodes : ∀ u ∈ indices, EncodesNodes u) :
    EncodesNodes (.element array indices type) := by
  have operands := pushAll_lawful encodes
  have nodes : (Term.element array indices type).All Encodable ↔
      indices.length + 1 ≤ Encode.maxArguments ∧ array.All Encodable ∧
        ∀ u ∈ indices, u.All Encodable := by
    simp [Term.all_iff (t := .element array indices type), Encodable, Term.parts]
  have voids : (Term.element array indices type).voids = 0 ↔
      array.voids = 0 ∧ ∀ u ∈ indices, u.voids = 0 := by
    simp [voids_eq_zero (t := .element array indices type), Term.isVoid, Term.parts]
  rw [← encodesArray.value, ← operands] at nodes
  constructor
  · simp only [lower, lawful_seq, pushElement_lawful, nodes, voids]
    rw [and_right_comm, and_comm, and_and_and_comm]
  · intro _
    simp only [lower, lawful_seq, pushElementAddress_lawful, nodes, voids]
    rw [and_right_comm, and_comm, and_and_and_comm]
  · intro _
    simp only [lower, lawful_seq, popElement_lawful, nodes, voids, Storable]
    constructor
    · rintro ⟨⟨array, indices⟩, few, none, noneOf⟩
      exact ⟨⟨by omega, ⟨array, none⟩, indices, noneOf⟩, few⟩
    · rintro ⟨⟨-, ⟨array, none⟩, indices, noneOf⟩, few⟩
      exact ⟨⟨array, indices⟩, few, none, noneOf⟩

theorem conversion (encodes : EncodesNodes operand) (applies : kind.Applies operand.type? type) :
    EncodesNodes (.conversion kind operand type) := by
  have converts : (convertTop kind operand.type? type).Lawful := convertTop_lawful applies
  have present : Encodable (.conversion kind operand type) ↔
      (Term.conversion kind operand type).isVoid = false := by
    cases kind <;> simp [Encodable, Term.isVoid]
  refine .readOnly rfl rfl ?_
  simp only [lawful_seq, converts, Term.all_iff (t := .conversion kind operand type), present,
    voids_eq_zero (t := .conversion kind operand type), Term.parts, List.forall_mem_singleton,
    ← encodes.value, and_true]
  rw [and_left_comm]

/-- The right operand has to bring the stack to the depth that the left one left. -/
theorem coalesce (encodesLeft : EncodesNodes left) (encodesRight : EncodesNodes right)
    (formed : right.WellFormed s) (typed : right.type?.isSome) :
    EncodesNodes (.coalesce left right type) := by
  have level (lawful : (lower right).value.Lawful) (none : right.voids = 0) :
      (lower right).value.effect.net = 1 := by
    simpa [none] using ((usesStack formed).typedValue typed lawful).net
  refine .readOnly rfl rfl ?_
  simp [Lawful, Term.all_iff (t := .coalesce left right type),
    voids_eq_zero (t := .coalesce left right type), Encodable, Term.isVoid, Term.parts,
    ← encodesLeft.value, ← encodesRight.value]
  constructor
  · rintro ⟨⟨lawfulLeft, lawfulRight, -⟩, noneLeft, noneRight⟩
    exact ⟨⟨lawfulLeft, noneLeft⟩, lawfulRight, noneRight⟩
  · rintro ⟨⟨lawfulLeft, noneLeft⟩, lawfulRight, noneRight⟩
    exact ⟨⟨lawfulLeft, lawfulRight, level lawfulRight noneRight⟩, noneLeft, noneRight⟩

end EncodesNodes

/-- Whether a term can be encoded depends on its nodes alone. -/
theorem encodesNodes (formed : t.WellFormed s) : EncodesNodes t := by
  induction t, formed using Term.All.induction with
  | null => exact .readOnly rfl rfl (leaf_encodes (Does.op rfl rfl rfl).1 trivial rfl rfl)
  | constant value type =>
    exact .readOnly rfl rfl (leaf_encodes (pushConstant_does value).1 trivial rfl rfl)
  | localVar index type =>
    exact ⟨leaf_encodes (lawful_form (Form.loadLocal_has index)) trivial rfl rfl,
      fun _ => leaf_encodes (lawful_form (Form.loadLocalAddress_has index)) trivial rfl rfl,
      fun _ => leaf_stores skip_lawful
        (iff_of_true (lawful_form (Form.storeLocal_has index)) trivial) trivial rfl rfl⟩
  | parameter index byRef type => exact .parameter index byRef type
  | this type =>
    refine .readOnly rfl rfl (leaf_encodes ?_ trivial rfl rfl)
    refine ⟨lawful_form (Form.loadArgument_has 0), ?_⟩
    split
    · exact onMember_lawful rfl rfl rfl
    · trivial
  | pseudo o formed => exact .pseudo formed.node
  | staticField f =>
    exact ⟨leaf_encodes (onMember_lawful rfl rfl rfl) trivial rfl rfl,
      fun _ => leaf_encodes (onMember_lawful rfl rfl rfl) trivial rfl rfl,
      fun _ => leaf_stores skip_lawful
        (iff_of_true (onMember_lawful rfl rfl rfl) trivial) trivial rfl rfl⟩
  | field receiver f formed encodes => exact encodes.field (formed.node.2 receiver rfl) f
  | staticProperty p =>
    exact .readOnly rfl rfl (leaf_encodes (callGetter_lawful ⟨rfl, rfl⟩ p false) trivial rfl rfl)
  | property receiver p formed encodes =>
    have encodes := encodes.receiver (formed.node.2 receiver rfl)
    have get := callGetter_lawful (callOpcode_callable (some receiver)) p true
    refine .readOnly rfl rfl ?_
    simp [get, Term.all_iff (t := .property (some receiver) p),
      voids_eq_zero (t := .property (some receiver) p), Encodable, Term.isVoid, Term.parts, encodes]
  | staticCall m args formed encodes => exact .staticCall encodes formed.node
  | call receiver m args formed encodesReceiver encodes =>
    exact .call encodesReceiver encodes formed.node
  | element array indices type formed encodesArray encodes => exact .element encodesArray encodes
  | conversion kind operand type formed encodes => exact encodes.conversion formed.node
  | negate operand formed encodes =>
    have operator : (Block.op .neg).Lawful := (Does.op rfl rfl rfl).1
    refine .readOnly rfl rfl ?_
    simp [operator, Term.all_iff (t := .negate operand), voids_eq_zero (t := .negate operand),
      Encodable, Term.isVoid, Term.parts, ← encodes.value]
  | binary op left right type formed encodesLeft encodesRight =>
    have operator := (arithmetic_does op (isUnsignedType type)).1
    refine .readOnly rfl rfl ?_
    simp [operator, Term.all_iff (t := .binary op left right type),
      voids_eq_zero (t := .binary op left right type), Encodable, Term.isVoid, Term.parts,
      ← encodesLeft.value, ← encodesRight.value, and_and_and_comm]
  | coalesce left right type formed encodesLeft encodesRight =>
    obtain ⟨-, rightType, typed, -⟩ := formed.node
    exact encodesLeft.coalesce encodesRight (formed.parts right (by simp [Term.parts]))
      (by simp [typed])
  | assign target value type formed encodesTarget encodes =>
    obtain ⟨assignable, typed, -⟩ := formed.node
    refine .readOnly rfl rfl ?_
    rw [withType, typed]
    exact assign_encodes (encodesTarget.store assignable) encodes.value
  | compound op target value type formed encodesTarget encodes =>
    obtain ⟨assignable, typed, -⟩ := formed.node
    refine .readOnly rfl rfl ?_
    rw [withType, typed]
    exact compound_encodes assignable (by simp [typed]) encodesTarget encodes.value

/-- A term whose value is dropped needs no more than one whose value is used. -/
theorem discard_encodes (formed : t.WellFormed s) :
    (discard t).Lawful ∧ t.voids = 0 ↔ t.All Encodable := by
  have part {u : Term} (member : u ∈ t.parts) : EncodesNodes u :=
    encodesNodes (formed.parts u member)
  unfold discard
  split
  · rename_i target value type
    obtain ⟨assignable, typed, -⟩ := formed.node
    rw [withType, typed]
    exact assign_encodes ((part (by simp [Term.parts])).store assignable)
      (part (by simp [Term.parts])).value
  · rename_i op target value type
    obtain ⟨assignable, typed, -⟩ := formed.node
    rw [withType, typed]
    exact compound_encodes assignable (by simp [typed]) (part (by simp [Term.parts]))
      (part (by simp [Term.parts])).value
  · have drop : (if t.hasValue then Block.op .pop else .skip).Lawful := by
      split
      · exact pop_has.1
      · trivial
    rw [lawful_seq, ← (encodesNodes formed).value]
    simp only [drop, and_true]

/-- Code that needs nothing on the stack has room where its greatest depth has. -/
theorem hasRoom_of_peak {effects : List Effect} {temporaries : List ClosedType} {slots : Nat}
    (takes : effects.prod.takes = 0) (depths : peak 0 effects ≤ Encoder.depthLimit)
    (few : slots + temporaries.length ≤ UInt16.size) : HasRoom 0 slots effects temporaries := by
  refine ⟨?_, fun _ => few⟩
  intro d member
  obtain ⟨k, found⟩ := List.mem_iff_getElem?.mp member
  rw [depthsAfter_getElem?] at found
  split at found
  · rename_i bound
    have below := le_peak 0 (show k + 1 ≤ effects.length from bound)
    have prefixTakes := Effect.takes_le_mul (effects.take (k + 1)).prod (effects.drop (k + 1)).prod
    rw [← List.prod_append, List.take_append_drop, takes] at prefixTakes
    have net : (effects.take (k + 1)).prod.net = (effects.take (k + 1)).prod.leaves := by
      simp only [Effect.net]
      omega
    obtain rfl := Option.some.inj found
    unfold InRange
    omega
  · cases found

/-- The code stays within the limits of a method. -/
structure Fits (locals : List ClosedType) (b : Block) : Prop where
  depths : peak 0 b.effects ≤ Encoder.depthLimit
  slots : locals.length + b.temporaries.length ≤ UInt16.size

variable {locals : List ClosedType} {returnType : Option ClosedType}

theorem assemble_ok_iff {b : Block} {hasValue : Bool} {missing : Nat} (fits : Fits locals b)
    (pushes : b.Lawful → b.effect.Pushes (returned hasValue) missing) :
    (∃ m, assemble locals b hasValue returnType = .ok m) ↔ b.Lawful ∧ missing = 0 := by
  constructor
  · rintro ⟨m, h⟩
    obtain ⟨lawful, -, level⟩ := (assemble_sound h).1
    have net := (pushes lawful).net
    exact ⟨lawful, by omega⟩
  · rintro ⟨lawful, none⟩
    have exact := (pushes lawful).exact none
    have takes : b.effects.prod.takes = 0 := congrArg Effect.takes exact
    exact assemble_complete ⟨lawful, hasRoom_of_peak takes fits.depths fits.slots, by simp [exact]⟩

/-- A term whose code stays within the limits has a method just when all nodes can be encoded. -/
theorem expressionMethod_ok_iff (formed : t.WellFormed s) (fits : Fits locals (lower t).value) :
    (∃ m, expressionMethod locals t = .ok m) ↔ t.All Encodable := by
  rw [← (encodesNodes formed).value]
  refine assemble_ok_iff fits fun lawful => ?_
  have pushes := (usesStack formed).value lawful
  cases present : t.hasValue <;> simpa [returned, present] using pushes

theorem statementMethod_ok_iff (formed : t.WellFormed s) (fits : Fits locals (discard t)) :
    (∃ m, statementMethod locals t = .ok m) ↔ t.All Encodable := by
  rw [← discard_encodes formed]
  exact assemble_ok_iff fits (discard_pushes formed)

/-- The operands of a node stay below the numbers that the instructions count to. -/
def countsFit : Term → Bool
  | .call _ m _ => m.params.length ≤ 254
  | .element _ indices _ => indices.length ≤ 254
  | .assign (.element _ indices _) _ _ => indices.length ≤ 253
  | _ => true

instance (type : ClosedType) : Decidable (IsNative type) :=
  inferInstanceAs (Decidable (_ ∨ _))

/-- A node that takes no call without a result for the null literal and stores no native integer
through a reference. -/
def isSupported : Term → Bool
  | .conversion .nullLiteral operand _ => operand.hasValue
  | .assign (.parameter _ true type) _ _ => ¬ IsNative type
  | .assign (.pseudo o) _ _ => ¬ IsNative o.type
  | .compound _ target _ type => (lower target).storesDirectly || ¬ IsNative type
  | _ => true

theorem encodable_of_supported (counts : countsFit t = true) (supported : isSupported t = true) :
    Encodable t := by
  cases t with
  | call receiver m args =>
    simp only [countsFit, decide_eq_true_eq] at counts
    simp only [Encodable, Encode.maxArguments]
    split <;> omega
  | element array indices type =>
    simp only [countsFit, decide_eq_true_eq] at counts
    simp only [Encodable, Encode.maxArguments]
    omega
  | conversion kind operand type =>
    cases kind with
    | nullLiteral => exact supported
    | implicitReference | numeric | boxing | unboxing | explicitReference => trivial
  | assign target value type =>
    cases target with
    | parameter index byRef type =>
      cases byRef with
      | false => trivial
      | true => simpa [isSupported, Encodable, Storable] using supported
    | pseudo o => simpa [isSupported, Encodable, Storable] using supported
    | element array indices type =>
      simp only [countsFit, decide_eq_true_eq] at counts
      simp only [Encodable, Storable, Encode.maxArguments]
      omega
    | _ => trivial
  | compound => simpa [isSupported, Encodable, Storable] using supported
  | _ => trivial

/-- Every bound term within the limits of the instructions has a method: its value can be returned,
and it can be a statement. -/
theorem bound_has_method {expr : Expr} (bound : s.bind expr = .ok t)
    (counts : t.All fun u => countsFit u = true) (supported : t.All fun u => isSupported u = true) :
    (Fits locals (lower t).value → ∃ m, expressionMethod locals t = .ok m) ∧
      (Fits locals (discard t) → ∃ m, statementMethod locals t = .ok m) := by
  have formed := Scope.bind_wellFormed bound
  have encodable : t.All Encodable := fun u member =>
    encodable_of_supported (counts u member) (supported u member)
  exact ⟨fun fits => (expressionMethod_ok_iff formed fits).mpr encodable,
    fun fits => (statementMethod_ok_iff formed fits).mpr encodable⟩

instance (b : Block) : Decidable (Fits locals b) :=
  decidable_of_iff (peak 0 b.effects ≤ Encoder.depthLimit ∧
    locals.length + b.temporaries.length ≤ UInt16.size)
    ⟨fun ⟨depths, slots⟩ => ⟨depths, slots⟩, fun ⟨depths, slots⟩ => ⟨depths, slots⟩⟩

section Instances
open Sample

/-- An array of the rank, a parameter by reference, and no value to return. -/
def gridScope (rank : Nat) : Scope :=
  scope [⟨"p", type .nativeInt, true⟩] [⟨"a", .array (type .object) rank⟩]

/-- Stores null at the origin of the array. -/
def gridStore (rank : Nat) : Expr :=
  .assign 0 (.index 0 (.name 0 "a" []) (List.replicate rank (.literal 0 (.integer 0)))) none
    (.literal 0 .null)

theorem gridStore_has_method : ∃ t m, (gridScope 253).bind (gridStore 253) = .ok t ∧
    expressionMethod [.array (type .object) 253] t = .ok m := by
  obtain ⟨t, bound, counts, supported, fits⟩ : ∃ t, (gridScope 253).bind (gridStore 253) = .ok t ∧
      t.subterms.all countsFit = true ∧ t.subterms.all isSupported = true ∧
        Fits [.array (type .object) 253] (lower t).value :=
    exists_ok_of_any (by decide +kernel)
  obtain ⟨m, compiles⟩ := (bound_has_method bound (List.all_eq_true.mp counts)
    (List.all_eq_true.mp supported)).1 fits
  exact ⟨t, m, bound, compiles⟩

/-- The limits on calls and arrays alone. -/
def ranksFit : Term → Bool
  | .call _ m _ => m.params.length ≤ 254
  | .element _ indices _ => indices.length ≤ 254
  | _ => true

/-- Binding answers with a term within these limits, but it has no method. -/
def Refused (s : Scope) (expr : Expr) : Prop :=
  ∃ t, s.bind expr = .ok t ∧ t.subterms.all ranksFit = true ∧
    Fits (s.frame.locals.map (·.type)) (lower t).value ∧
    (expressionMethod (s.frame.locals.map (·.type)) t).toOption.isNone = true

/-- Without the further limits there are bound terms without a method: the store of an element of the
highest rank, a store of a native integer through a reference, and a call that returns nothing and is
converted to a class. -/
theorem some_are_refused : Refused (gridScope 254) (gridStore 254) ∧
    Refused (gridScope 1) (.assign 0 (.name 0 "p" []) none (.name 0 "p" [])) ∧
    Refused (gridScope 1) (.cast 0 (.keyword .object) (.invoke 0 (.name 0 "Stop" []) [])) :=
  ⟨exists_ok_of_any (by decide +kernel), exists_ok_of_any (by decide +kernel),
    exists_ok_of_any (by decide +kernel)⟩

end Instances

end DebugExpr.Code
