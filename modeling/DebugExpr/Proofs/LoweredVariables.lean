import DebugExpr.Proofs.BareBlocks
import DebugExpr.Proofs.Subterms

/-! The variables of lowered terms. Whichever use the code of a term is for, it accesses variables
of the term's nodes alone, and its stores to locals are those of the assignments among the nodes, in
the order in which evaluation completes them. -/
namespace DebugExpr.Bound.Term

/-- The local that a term denotes. -/
def local? : Term → Option Nat
  | localVar index _ => some index
  | _ => none

/-- The variable that a node denotes. An argument passed by reference holds an address and is read
for that. -/
def denotes? : Term → Option Variable
  | localVar index _ => some (.local index)
  | parameter index _ _ => some (.argument index)
  | this _ => some (.argument 0)
  | _ => none

/-- The local to which a node assigns. -/
def assigned? : Term → Option Nat
  | assign target _ _ | compound _ target _ _ => target.local?
  | _ => none

/-- The locals to which a term assigns, in the order of evaluation. -/
def assignedLocals (t : Term) : List Nat :=
  t.postorder.filterMap assigned?

theorem assignedLocals_eq (t : Term) :
    t.assignedLocals = t.parts.flatMap assignedLocals ++ t.assigned?.toList :=
  t.filterMap_postorder assigned?

end DebugExpr.Bound.Term

namespace DebugExpr.Code
open Metadata Source DebugExpr.Bound

/-- The local to which an access stores. -/
def storedLocal? : Access × Variable → Option Nat
  | (.store, .local index) => some index
  | _ => none

theorem callAccessor_accesses (o : Pseudo.Occurrence) : (callAccessor o).accesses = [] :=
  List.append_eq_nil_iff.mpr ⟨(pushArgument_bare o.call.argument).accesses, rfl⟩

/-- The variables of the block have a property, and its stores to locals are among those listed, in
their order. -/
structure Uses (P : Variable → Prop) (stored : List Nat) (b : Block) : Prop where
  within : ∀ x ∈ b.accesses, P x.2
  stores : (b.accesses.filterMap storedLocal?).Sublist stored

namespace Uses
variable {P : Variable → Prop} {stored stored' more : List Nat} {a b : Block}

theorem silent (none : b.accesses = []) : Uses P stored b := by
  constructor <;> simp [none]

theorem append (first : Uses P stored a) (second : Uses P stored' b) :
    Uses P (stored ++ stored') (a ++ b) where
  within := List.forall_mem_append.mpr ⟨first.within, second.within⟩
  stores := by
    have both := first.stores.append second.stores
    rwa [← List.filterMap_append] at both

theorem before (uses : Uses P stored a) (behind : b.accesses = []) : Uses P stored (a ++ b) := by
  have nothing : Uses P [] b := silent behind
  simpa using uses.append nothing

theorem behind (before : a.accesses = []) (uses : Uses P stored b) : Uses P stored (a ++ b) := by
  have nothing : Uses P [] a := silent before
  simpa using nothing.append uses

theorem weaken (uses : Uses P stored b) (fewer : stored.Sublist more) : Uses P more b :=
  ⟨uses.within, uses.stores.trans fewer⟩

theorem keeping {type : ClosedType} (uses : Uses P stored b) : Uses P stored (.keeping type b) :=
  ⟨uses.within, uses.stores⟩

theorem orElse (first : Uses P stored a) (second : Uses P stored' b) :
    Uses P (stored ++ stored') (.orElse a b) :=
  ⟨(first.append second).within, (first.append second).stores⟩

theorem form {f : Form} {access : Access} {x : Variable} (accesses : f.access? = some (access, x))
    (holds : P x) : Uses P (storedLocal? (access, x)).toList (.form f) := by
  have accesses : access? f.opcode f.operand = some (access, x) := accesses
  constructor
  · simpa [Block.form, Block.accesses, accesses] using holds
  · cases stores : storedLocal? (access, x) <;>
      simp [Block.form, Block.accesses, accesses, stores]

theorem withType {t : Term} {code : ClosedType → Block} (uses : ∀ type, Uses P stored (code type)) :
    Uses P stored (withType t code) := by
  unfold Code.withType
  split
  · exact uses _
  · exact silent rfl

theorem spill (t : Term) (uses : Uses P stored b) : Uses P stored (spill t b) :=
  withType fun _ => uses.before rfl

end Uses

/-- For whatever a term is used, the variables of its code have a property, and the code stores to
the locals to which the term assigns. -/
structure LowersWithin (P : Variable → Prop) (t : Term) : Prop where
  value : Uses P t.assignedLocals (lower t).value
  address : Uses P t.assignedLocals (lower t).address
  beforeStore : Uses P t.assignedLocals (lower t).beforeStore
  store : Uses P t.local?.toList (lower t).store

namespace LowersWithin
variable {P : Variable → Prop} {t target value : Term}

theorem readOnly {code : Block} (uses : Uses P t.assignedLocals code)
    (lowered : lower t = .readOnly t code) : LowersWithin P t := by
  have none : Uses P t.local?.toList (lower t).store := by
    rw [lowered]
    exact .silent (b := .fault .notStorable) rfl
  refine ⟨?_, ?_, ?_, none⟩ <;> rw [lowered]
  · exact uses
  · exact uses.spill t
  · exact .silent (b := .fault .notStorable) rfl

theorem receiver (within : LowersWithin P t) (needsAddress : Bool) :
    Uses P t.assignedLocals (pushReceiver t (lower t) needsAddress) := by
  unfold pushReceiver
  split
  · exact within.address
  · exact within.value

theorem pushAll {ts : List Term} (within : ∀ t ∈ ts, LowersWithin P t) :
    Uses P (ts.flatMap Term.assignedLocals) (pushAll ts) := by
  induction ts with
  | nil => exact .silent rfl
  | cons t rest ih =>
    rw [List.forall_mem_cons] at within
    exact within.1.value.append (ih within.2)

theorem pushArguments {args : List (Bool × Term)} (within : ∀ arg ∈ args, LowersWithin P arg.2) :
    Uses P (args.flatMap (·.2.assignedLocals)) (pushArguments args) := by
  induction args with
  | nil => exact .silent rfl
  | cons arg rest ih =>
    rw [List.forall_mem_cons] at within
    refine .append ?_ (ih within.2)
    split
    · exact within.1.address
    · exact within.1.value

theorem assignTo (ofTarget : LowersWithin P target) (ofValue : LowersWithin P value)
    (type : ClosedType) (used : Bool) :
    Uses P (target.assignedLocals ++ value.assignedLocals ++ target.local?.toList)
      (assignTo type (lower target) (lower value).value used) := by
  refine (ofTarget.beforeStore.append ofValue.value).append ?_
  split
  · refine .behind ?_ ofTarget.store
    cases used <;> rfl
  · cases used with
    | true => exact ofTarget.store.keeping
    | false => exact ofTarget.store

theorem compoundTo (ofTarget : LowersWithin P target) (ofValue : LowersWithin P value)
    (op : BinaryOp) (type : ClosedType) (used : Bool) :
    Uses P (target.assignedLocals ++ value.assignedLocals ++ target.local?.toList)
      (compoundTo op type (lower target) (lower value).value used) := by
  have operator := (arithmetic_bare op (isUnsignedType type)).accesses
  unfold Code.compoundTo
  split
  · refine .append (.before (.before (ofTarget.value.append ofValue.value) operator) ?_)
      ofTarget.store
    cases used <;> rfl
  · have dup : (Block.op .dup).accesses = [] := rfl
    have address := (ofTarget.address.before dup).before (pushIndirect_bare type).accesses
    refine .append ((address.append ofValue.value).before operator) ?_
    cases used with
    | true => exact .silent (popIndirect_bare type).accesses
    | false => exact .silent (popIndirect_bare type).accesses

end LowersWithin

namespace LowersWithin
variable {P : Variable → Prop} {receiver array : Term} {indices : List Term}

theorem parameter {index : Nat} (own : P (.argument index)) (byRef : Bool) (type : ClosedType) :
    LowersWithin P (.parameter index byRef type) := by
  have load : Uses P [] (.form (.loadArgument index)) :=
    .form (Form.loadArgument_access index) own
  cases byRef with
  | false =>
    exact ⟨load, .form (Form.loadArgumentAddress_access index) own, .silent rfl,
      .form (Form.storeArgument_access index) own⟩
  | true =>
    exact ⟨load.before (pushIndirect_bare type).accesses, load, load,
      .silent (popIndirect_bare type).accesses⟩

theorem pseudo (o : Pseudo.Occurrence) : LowersWithin P (.pseudo o) := by
  have read : (callAccessor o ++ narrowPseudo o).accesses = [] :=
    List.append_eq_nil_iff.mpr ⟨callAccessor_accesses o, (narrowPseudo_bare o).accesses⟩
  cases storage : o.hasStorage with
  | true =>
    constructor <;> rw [lower_stored storage]
    · exact .silent read
    · exact .silent (callAccessor_accesses o)
    · exact .silent (callAccessor_accesses o)
    · exact .silent (popIndirect_bare o.type).accesses
  | false => exact .readOnly (.silent read) (by simp [lower, storage])

theorem field (within : LowersWithin P receiver) (f : MemberRef) :
    LowersWithin P (.field (some receiver) f) := by
  have same : (Term.field (some receiver) f).assignedLocals = receiver.assignedLocals := by
    simp [Term.assignedLocals_eq (.field ..), Term.parts, Term.assigned?]
  have value : Uses P (Term.field (some receiver) f).assignedLocals
      (pushReceiver receiver (lower receiver) false ++ .onMember .ldfld f.displayField) :=
    same ▸ (within.receiver false).before rfl
  refine ⟨value, ?_, same ▸ within.receiver true, .silent rfl⟩
  simp only [lower]
  split
  · exact same ▸ (within.receiver true).before rfl
  · exact value.spill _

theorem element (within : LowersWithin P array) (withinAll : ∀ index ∈ indices, LowersWithin P index)
    (type : ClosedType) : LowersWithin P (.element array indices type) := by
  have operands : Uses P (Term.element array indices type).assignedLocals
      ((lower array).value ++ Code.pushAll indices) := by
    refine (within.value.append (pushAll withinAll)).weaken ?_
    simp [Term.assignedLocals_eq (.element ..), Term.parts]
  exact ⟨operands.before (pushElement_bare _ _).accesses,
    operands.before (pushElementAddress_bare _ _).accesses, operands,
    .silent (popElement_bare _ _).accesses⟩

end LowersWithin

/-- Code accesses the variables that the nodes of its term denote. -/
theorem lower_within {P : Variable → Prop} {t : Term}
    (holds : t.All fun u => ∀ x ∈ u.denotes?, P x) : LowersWithin P t := by
  induction t, holds using Term.All.induction with
  | null => exact .readOnly (.silent rfl) rfl
  | constant value type => exact .readOnly (.silent (pushConstant_bare value).accesses) rfl
  | localVar index type holds =>
    have own : P (.local index) := holds.node _ rfl
    exact ⟨.form (Form.loadLocal_access index) own, .form (Form.loadLocalAddress_access index) own,
      .silent rfl, .form (Form.storeLocal_access index) own⟩
  | parameter index byRef type holds => exact .parameter (holds.node _ rfl) byRef type
  | this type holds =>
    have own : P (.argument 0) := holds.node _ rfl
    refine .readOnly (.before (.form (Form.loadArgument_access 0) own) ?_) rfl
    split
    · rfl
    · rfl
  | pseudo o => exact .pseudo o
  | staticField f =>
    exact ⟨.silent rfl, .silent rfl, .silent rfl,
      .silent rfl⟩
  | field receiver f _ within => exact within.field f
  | staticProperty p => exact .readOnly (.silent rfl) rfl
  | property receiver p _ within =>
    refine .readOnly (((within.receiver true).before rfl).weaken ?_) rfl
    simp [Term.assignedLocals_eq (.property ..), Term.parts]
  | staticCall m args _ within =>
    have pushed := LowersWithin.pushArguments within
    refine .readOnly ((pushed.before rfl).weaken ?_) rfl
    simp [Term.assignedLocals_eq (.call ..), Term.parts, List.flatMap_map]
  | call receiver m args _ within withinArgs =>
    have pushed := LowersWithin.pushArguments withinArgs
    refine .readOnly ((((within.receiver true).append pushed).before rfl).weaken ?_)
      rfl
    simp [Term.assignedLocals_eq (.call ..), Term.parts, List.flatMap_map]
  | element array indices type _ within withinAll => exact within.element withinAll type
  | conversion kind operand type _ within =>
    refine .readOnly ((within.value.before (convertTop_bare _ _ _).accesses).weaken ?_) rfl
    simp [Term.assignedLocals_eq (.conversion ..), Term.parts]
  | negate operand _ within =>
    refine .readOnly ((within.value.before rfl).weaken ?_) rfl
    simp [Term.assignedLocals_eq (.negate _), Term.parts]
  | binary op left right type _ first second =>
    have operator := (arithmetic_bare op (isUnsignedType type)).accesses
    refine .readOnly (((first.value.append second.value).before operator).weaken ?_) rfl
    simp [Term.assignedLocals_eq (.binary ..), Term.parts]
  | coalesce left right type _ first second =>
    refine .readOnly ((first.value.orElse second.value).weaken ?_) rfl
    simp [Term.assignedLocals_eq (.coalesce ..), Term.parts]
  | assign target value type _ first second =>
    refine .readOnly ((Uses.withType fun type => first.assignTo second type true).weaken ?_) rfl
    simp [Term.assignedLocals_eq (.assign ..), Term.parts, Term.assigned?]
  | compound op target value type _ first second =>
    refine .readOnly ((Uses.withType fun type => first.compoundTo second op type true).weaken ?_)
      rfl
    simp [Term.assignedLocals_eq (.compound ..), Term.parts, Term.assigned?]

theorem discard_uses {P : Variable → Prop} {t : Term}
    (holds : t.All fun u => ∀ x ∈ u.denotes?, P x) : Uses P t.assignedLocals (discard t) := by
  unfold discard
  split
  · rename_i target value type
    have first := lower_within (holds.parts target (by simp [Term.parts]))
    have second := lower_within (holds.parts value (by simp [Term.parts]))
    refine (Uses.withType fun type => first.assignTo second type false).weaken ?_
    simp [Term.assignedLocals_eq (.assign ..), Term.parts, Term.assigned?]
  · rename_i op target value type
    have first := lower_within (holds.parts target (by simp [Term.parts]))
    have second := lower_within (holds.parts value (by simp [Term.parts]))
    refine (Uses.withType fun type => first.compoundTo second op type false).weaken ?_
    simp [Term.assignedLocals_eq (.compound ..), Term.parts, Term.assigned?]
  · refine (lower_within holds).value.before ?_
    split
    · rfl
    · rfl

end DebugExpr.Code
