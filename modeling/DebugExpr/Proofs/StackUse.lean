import DebugExpr.Code.Lower
import DebugExpr.Proofs.Blocks
import DebugExpr.Proofs.BoundTerms

/-! What the code of a term leaves on the stack. The code of a value pushes one value and takes none
from the stack, and a store takes the value and what was pushed below it. One term breaks the rule:
a call that returns nothing, converted like the null literal, pushes nothing where a value is
expected. `voids` counts these terms. -/
namespace DebugExpr.Code
open Metadata Source DebugExpr.Bound

/-- Code of the effect pushes as many values but for the missing ones, and if none is missing it
needs nothing on the stack. -/
structure Effect.Pushes (e : Effect) (count missing : Nat) : Prop where
  net : e.net = count - missing
  exact : missing = 0 → e = ⟨0, count⟩

namespace Effect.Pushes
variable {e e' : Effect} {count count' missing missing' : Nat}

theorem of_eq (h : e = ⟨0, count⟩) : e.Pushes count 0 :=
  ⟨by simp [h], fun _ => h⟩

theorem append (first : e.Pushes count missing) (second : e'.Pushes count' missing') :
    (e * e').Pushes (count + count') (missing + missing') where
  net := by
    rw [net_mul, first.net, second.net]
    omega
  exact none := by
    rw [first.exact (by omega), second.exact (by omega), mul_def, mk.injEq]
    dsimp only
    omega

/-- An instruction takes some of the values and leaves others. -/
theorem apply (first : e.Pushes count missing) (takes leaves : Nat) (enough : takes ≤ count) :
    (e * ⟨takes, leaves⟩).Pushes (count - takes + leaves) missing where
  net := by
    rw [net_mul, first.net, net_mk]
    omega
  exact none := by
    rw [first.exact none, mul_def, mk.injEq]
    dsimp only
    omega

end Effect.Pushes

namespace Block

@[simp]
theorem effect_seq (a b : Block) : (a ++ b).effect = a.effect * b.effect :=
  List.prod_append

@[simp]
theorem effect_skip : skip.effect = 1 :=
  rfl

@[simp]
theorem effect_plain (op : Opcode) (operand : Operand) : (plain op operand).effect = op.effect :=
  List.prod_singleton

@[simp]
theorem effect_call (op : Opcode) (callee : Callee) : (call op callee).effect = callee.effect :=
  List.prod_singleton

@[simp]
theorem effect_orElse (left right : Block) :
    (orElse left right).effect = left.effect * ⟨1, 2⟩ * ⟨1, 0⟩ * ⟨1, 0⟩ * right.effect := by
  simp [effect, effects, mul_assoc]

@[simp]
theorem effect_spill (type : ClosedType) : (spill type).effect = ⟨1, 0⟩ * ⟨0, 1⟩ := by
  simp [effect, effects]

@[simp]
theorem effect_keeping (type : ClosedType) (body : Block) :
    (keeping type body).effect = ⟨1, 2⟩ * ⟨1, 0⟩ * body.effect * ⟨0, 1⟩ := by
  simp [effect, effects, mul_assoc]

@[simp]
theorem lawful_seq (a b : Block) : (a ++ b).Lawful ↔ a.Lawful ∧ b.Lawful :=
  Iff.rfl

theorem effect_form {f : Form} {e : Effect} (has : f.Has e) : (form f).effect = e :=
  (effect_plain ..).trans has.2

theorem lawful_form {f : Form} {e : Effect} (has : f.Has e) : (form f).Lawful :=
  has.1

/-- The block is lawful and has the effect. -/
def Does (b : Block) (e : Effect) : Prop :=
  b.Lawful ∧ b.effect = e

theorem Does.op {op : Opcode} {takes leaves : Nat} (effect : op.info.effect = .fixed takes leaves)
    (flow : op.info.flow = .next) (operand : op.operand = .none) :
    (Block.op op).Does ⟨takes, leaves⟩ :=
  have has : (⟨op, .none⟩ : Form).Has ⟨takes, leaves⟩ := .of_info effect flow (by simp [operand, Operand.fits])
  ⟨lawful_form has, effect_form has⟩

theorem Does.onMember {op : Opcode} {takes leaves : Nat} {text : String}
    (effect : op.info.effect = .fixed takes leaves) (flow : op.info.flow = .next)
    (operand : op.operand = .token) : (Block.onMember op text).Does ⟨takes, leaves⟩ :=
  have has : (⟨op, .member text⟩ : Form).Has ⟨takes, leaves⟩ :=
    .of_info effect flow (by simp [operand, Operand.fits])
  ⟨lawful_form has, effect_form has⟩

theorem Does.form {f : Form} {e : Effect} (has : f.Has e) : (Block.form f).Does e :=
  ⟨lawful_form has, effect_form has⟩

theorem Does.seq {a b : Block} {e e' : Effect} (first : a.Does e) (second : b.Does e') :
    (a ++ b).Does (e * e') :=
  ⟨⟨first.1, second.1⟩, by rw [effect_seq, first.2, second.2]⟩

theorem Does.plain {op : Opcode} {operand : Operand} {takes leaves : Nat}
    (effect : op.info.effect = .fixed takes leaves) (flow : op.info.flow = .next)
    (fits : operand.fits op.operand = true) : (Block.plain op operand).Does ⟨takes, leaves⟩ :=
  .form (f := ⟨op, operand⟩) (.of_info effect flow fits)

end Block

section Tables
open Block

theorem loadIndirect_does (p : Primitive) : (Block.op (loadIndirect p)).Does ⟨1, 1⟩ := by
  cases p <;> exact .op rfl rfl rfl

theorem storeIndirect?_does {p : Primitive} {op : Opcode} (h : storeIndirect? p = some op) :
    (Block.op op).Does ⟨2, 0⟩ := by
  cases p <;> cases h <;> exact .op rfl rfl rfl

theorem storeIndirect?_eq_none {p : Primitive} :
    storeIndirect? p = none ↔ p = .nativeInt ∨ p = .nativeUInt := by
  cases p <;> simp [storeIndirect?]

theorem loadElement_does (p : Primitive) : (Block.op (loadElement p)).Does ⟨2, 1⟩ := by
  cases p <;> exact .op rfl rfl rfl

theorem storeElement_does (p : Primitive) : (Block.op (storeElement p)).Does ⟨3, 0⟩ := by
  cases p <;> exact .op rfl rfl rfl

theorem arithmetic_does (op : BinaryOp) (isUnsigned : Bool) :
    (Block.op (arithmetic op isUnsigned)).Does ⟨2, 1⟩ := by
  cases op <;> cases isUnsigned <;> exact .op rfl rfl rfl

theorem convertNumeric?_does {source target : Primitive} {op : Opcode}
    (h : convertNumeric? source target = some op) : (Block.op op).Does ⟨1, 1⟩ := by
  revert h
  cases source <;> cases target <;> rintro ⟨⟩ <;> exact .op rfl rfl rfl

end Tables

/-- There is no store through a reference for a native integer. -/
def IsNative (type : ClosedType) : Prop :=
  type.primitive? = some .nativeInt ∨ type.primitive? = some .nativeUInt

section Leaves
open Block
variable {type : ClosedType} {rank : Nat}

theorem pushIndirect_does (type : ClosedType) : (pushIndirect type).Does ⟨1, 1⟩ := by
  unfold pushIndirect
  split
  · exact loadIndirect_does _
  · split
    · exact .onMember rfl rfl rfl
    · exact .op rfl rfl rfl

theorem popIndirect_does (storable : ¬ IsNative type) : (popIndirect type).Does ⟨2, 0⟩ := by
  unfold popIndirect
  split
  · rename_i p typed
    split
    · rename_i found
      exact storeIndirect?_does found
    · rename_i missing
      exact absurd (by simpa [IsNative, typed] using storeIndirect?_eq_none.mp missing) storable
  · split
    · exact .onMember rfl rfl rfl
    · exact .op rfl rfl rfl

theorem popIndirect_lawful : (popIndirect type).Lawful ↔ ¬ IsNative type := by
  refine ⟨?_, fun storable => (popIndirect_does storable).1⟩
  rintro lawful (native | native)
  all_goals simp [popIndirect, native, storeIndirect?, Lawful] at lawful

theorem callElement_does {access : ElementAccess}
    (lawful : (callElement type rank access).Lawful) :
    (callElement type rank access).Does
      ⟨rank + 1 + access.further, if access = .set then 0 else 1⟩ := by
  unfold callElement at lawful ⊢
  split at lawful
  · exact lawful.elim
  · rename_i small
    simp only [small, if_false]
    exact ⟨lawful, effect_call ..⟩

theorem callElement_lawful {access : ElementAccess} :
    (callElement type rank access).Lawful ↔ rank + 1 + access.further ≤ Encode.maxArguments := by
  have small : Encode.maxArguments < UInt16.size := by decide
  unfold callElement
  split
  · simp only [Lawful, false_iff]
    omega
  · have leaves : (if access = .set then 0 else 1) ≤ Encode.maxArguments := by
      split <;> decide
    simp [Lawful, Callee.takes, Callee.leaves, Encode.Callable, Opcode.info, Opcode.operand, leaves]

theorem pushElement_does (lawful : (pushElement type rank).Lawful) :
    (pushElement type rank).Does ⟨rank + 1, 1⟩ := by
  unfold pushElement at lawful ⊢
  by_cases single : rank = 1
  · subst single
    simp only [if_true]
    split
    · exact loadElement_does _
    · split
      · exact .onMember rfl rfl rfl
      · exact .op rfl rfl rfl
  · simp only [single, if_false] at lawful ⊢
    exact callElement_does lawful

theorem pushElementAddress_does (lawful : (pushElementAddress type rank).Lawful) :
    (pushElementAddress type rank).Does ⟨rank + 1, 1⟩ := by
  unfold pushElementAddress at lawful ⊢
  by_cases single : rank = 1
  · subst single
    exact .onMember rfl rfl rfl
  · simp only [single, if_false] at lawful ⊢
    exact callElement_does lawful

theorem popElement_does (lawful : (popElement type rank).Lawful) :
    (popElement type rank).Does ⟨rank + 2, 0⟩ := by
  unfold popElement at lawful ⊢
  by_cases single : rank = 1
  · subst single
    simp only [if_true]
    split
    · exact storeElement_does _
    · split
      · exact .onMember rfl rfl rfl
      · exact .op rfl rfl rfl
  · simp only [single, if_false] at lawful ⊢
    exact callElement_does lawful

theorem pushConstant_does (value : Constant) : (pushConstant value).Does ⟨0, 1⟩ := by
  cases value with
  | bool | int32 => exact .form (Form.int32_has _)
  | int64 => exact .form (Form.int64_has _)
  | string => exact .plain rfl rfl rfl

theorem callAccessor_does (o : Pseudo.Occurrence) : (callAccessor o).Does ⟨0, 1⟩ := by
  have calls : (Block.call .call (.accessor o.call)).Does (Callee.effect (.accessor o.call)) := by
    refine ⟨⟨⟨rfl, rfl⟩, ?_, ?_⟩, effect_call ..⟩
    · simp only [Callee.takes]
      split <;> decide
    · exact (by decide : 1 ≤ Encode.maxArguments)
  have argument : (pushArgument o.call.argument).Does ⟨0, (Callee.accessor o.call).takes⟩ := by
    simp only [Callee.takes]
    cases o.call.argument with
    | none => exact ⟨trivial, rfl⟩
    | int32 => exact .form (Form.int32_has _)
    | uint64 => exact .form (Form.int64_has _)
    | string => exact .plain rfl rfl rfl
  have both := argument.seq calls
  rwa [Callee.effect, Effect.mul_def, Nat.sub_self] at both

theorem narrowPseudo_does (o : Pseudo.Occurrence) :
    (narrowPseudo o).Does 1 ∨ (narrowPseudo o).Does ⟨1, 1⟩ := by
  unfold narrowPseudo
  split
  · exact .inr (pushIndirect_does _)
  · split
    · split <;> exact .inr (.onMember rfl rfl rfl)
    · exact .inl ⟨trivial, rfl⟩

theorem convertTop_does {kind : Conversion} {source : Option ClosedType}
    (applies : kind.Applies source type) :
    (convertTop kind source type).Does 1 ∨ (convertTop kind source type).Does ⟨1, 1⟩ := by
  cases kind with
  | nullLiteral | implicitReference => exact .inl ⟨trivial, rfl⟩
  | boxing =>
    obtain ⟨found, rfl, -⟩ := applies
    exact .inr (.onMember rfl rfl rfl)
  | unboxing | explicitReference => exact .inr (.onMember rfl rfl rfl)
  | numeric p =>
    obtain ⟨found, q, rfl, numeric, -⟩ := applies
    have typed : found.primitive? = some q := (Option.filter_eq_some_iff.mp numeric).1
    simp only [convertTop, Option.bind_some, typed]
    split
    · rename_i converts
      exact .inr (convertNumeric?_does converts)
    · exact .inl ⟨trivial, rfl⟩

end Leaves

end DebugExpr.Code

namespace DebugExpr.Bound.Term

/-- A conversion of a call that returns nothing, bound as if it were the null literal. -/
def isVoid : Term → Bool
  | conversion .nullLiteral operand _ => !operand.hasValue
  | _ => false

/-- The values that the code of a term misses. -/
def voids (t : Term) : Nat :=
  t.subterms.countP isVoid

theorem voids_eq (t : Term) : t.voids = t.isVoid.toNat + (t.parts.map voids).sum := by
  unfold voids
  rw [subterms_eq, List.countP_cons, List.countP_flatMap, Nat.add_comm]
  cases t.isVoid <;> rfl

end DebugExpr.Bound.Term

namespace DebugExpr.Code
open Metadata Source DebugExpr.Bound Block
variable {s : Scope} {t : Term}

/-- What the code of a term does to the stack. -/
structure UsesStack (t : Term) : Prop where
  value : (lower t).value.Lawful → (lower t).value.effect.Pushes t.hasValue.toNat t.voids
  address : (lower t).address.Lawful → (lower t).address.effect.Pushes 1 t.voids
  store : (lower t).beforeStore.Lawful → (lower t).store.Lawful →
    ∃ below, (lower t).beforeStore.effect.Pushes below t.voids ∧
      (lower t).store.effect = ⟨below + 1, 0⟩
  direct : (lower t).storesDirectly = true → (lower t).beforeStore = .skip ∧ t.voids = 0

namespace UsesStack

theorem typedValue (uses : UsesStack t) (typed : t.type?.isSome)
    (lawful : (lower t).value.Lawful) : (lower t).value.effect.Pushes 1 t.voids := by
  simpa [Term.hasValue_of_typed typed] using uses.value lawful

theorem receiver (uses : UsesStack t) (typed : t.type?.isSome) {needsAddress : Bool}
    (lawful : (pushReceiver t (lower t) needsAddress).Lawful) :
    (pushReceiver t (lower t) needsAddress).effect.Pushes 1 t.voids := by
  revert lawful
  unfold pushReceiver
  split
  · exact uses.address
  · exact uses.typedValue typed

/-- The address of a copy. -/
theorem spilled {value : Block}
    (pushes : value.Lawful → value.effect.Pushes t.hasValue.toNat t.voids)
    (lawful : (spill t value).Lawful) : (spill t value).effect.Pushes 1 t.voids := by
  unfold spill withType at lawful ⊢
  split at lawful
  · rename_i type typed
    have pushed := pushes lawful.1
    rw [Term.hasValue_of_typed (by simp [typed])] at pushed
    simpa [mul_assoc] using (pushed.apply 1 0 (by decide)).apply 0 1 (by decide)
  · exact lawful.elim

theorem readOnly {value : Block} (code : lower t = .readOnly t value)
    (pushes : value.Lawful → value.effect.Pushes t.hasValue.toNat t.voids) : UsesStack t := by
  constructor <;> rw [code]
  · exact pushes
  · exact spilled pushes
  · exact fun lawful => lawful.elim
  · exact fun direct => Bool.noConfusion direct

end UsesStack

/-- A store that takes all that was pushed, of which a copy of the value may be kept. -/
theorem Effect.Pushes.keepIf {e : Effect} {count missing : Nat} (pushed : e.Pushes (count + 1) missing)
    {used : Bool} {type : ClosedType} {store : Block} (stores : store.effect = ⟨count + 1, 0⟩) :
    (e * (keepIf used type store).effect).Pushes used.toNat missing := by
  cases used with
  | false => simpa [Code.keepIf, stores] using pushed.apply (count + 1) 0 (Nat.le_refl _)
  | true =>
    have copied := (pushed.apply 1 2 (by omega)).apply 1 0 (by omega)
    have stored := (copied.apply (count + 1) 0 (by omega)).apply 0 1 (by omega)
    simpa [Code.keepIf, stores, mul_assoc] using stored

namespace UsesStack

/-- A direct store takes the value alone. -/
theorem directStore (uses : UsesStack t) (direct : (lower t).storesDirectly = true)
    (lawful : (lower t).store.Lawful) : (lower t).store.effect = ⟨1, 0⟩ := by
  obtain ⟨skips, none⟩ := uses.direct direct
  obtain ⟨below, ready, stores⟩ := uses.store (by rw [skips]; trivial) lawful
  have empty := ready.net
  simp only [skips, effect_skip, Effect.net_one, none] at empty
  obtain rfl : below = 0 := by omega
  exact stores

end UsesStack

/-- A store of the value alone, of which a copy may be kept. -/
theorem Effect.Pushes.copyIf {e : Effect} {missing : Nat} (pushed : e.Pushes 1 missing)
    {used : Bool} {store : Block} (stores : store.effect = ⟨1, 0⟩) :
    (e * ((copyIf used).effect * store.effect)).Pushes used.toNat missing := by
  cases used with
  | false => simpa [Code.copyIf, stores] using pushed.apply 1 0 (by decide)
  | true =>
    have copy : (Block.op .dup).effect = ⟨1, 2⟩ := rfl
    simpa [Code.copyIf, stores, copy, mul_assoc] using
      (pushed.apply 1 2 (by decide)).apply 1 0 (by decide)

theorem assignTo_pushes {target : Term} {type : ClosedType} {value : Block} {used : Bool}
    {missing : Nat} (uses : UsesStack target) (pushes : value.Lawful → value.effect.Pushes 1 missing)
    (lawful : (assignTo type (lower target) value used).Lawful) :
    (assignTo type (lower target) value used).effect.Pushes used.toNat (target.voids + missing) := by
  unfold assignTo at lawful ⊢
  obtain ⟨⟨before, lawfulValue⟩, code⟩ := lawful
  have pushed := pushes lawfulValue
  cases direct : (lower target).storesDirectly with
  | true =>
    simp only [direct, if_true] at code ⊢
    obtain ⟨skips, none⟩ := uses.direct direct
    simpa [skips, none] using pushed.copyIf (uses.directStore direct code.2)
  | false =>
    simp only [direct, Bool.false_eq_true, if_false] at code ⊢
    have store : (lower target).store.Lawful := by
      cases used <;> exact code
    obtain ⟨below, ready, stores⟩ := uses.store before store
    simpa using (ready.append pushed).keepIf stores

theorem compoundTo_pushes {op : BinaryOp} {target : Term} {type : ClosedType} {value : Block}
    {used : Bool} {missing : Nat} (uses : UsesStack target) (typed : target.type?.isSome)
    (pushes : value.Lawful → value.effect.Pushes 1 missing)
    (lawful : (compoundTo op type (lower target) value used).Lawful) :
    (compoundTo op type (lower target) value used).effect.Pushes used.toNat
      (target.voids + missing) := by
  unfold compoundTo at lawful ⊢
  have operator := (arithmetic_does op (isUnsignedType type)).2
  cases direct : (lower target).storesDirectly with
  | true =>
    simp only [direct, if_true] at lawful ⊢
    obtain ⟨⟨⟨⟨read, lawfulValue⟩, -⟩, -⟩, store⟩ := lawful
    have operands := (uses.typedValue typed read).append (pushes lawfulValue)
    simpa [operator, mul_assoc] using
      (operands.apply 2 1 (by decide)).copyIf (uses.directStore direct store)
  | false =>
    simp only [direct, Bool.false_eq_true, if_false] at lawful ⊢
    obtain ⟨⟨⟨⟨⟨address, -⟩, -⟩, lawfulValue⟩, -⟩, store⟩ := lawful
    have store : (popIndirect type).Lawful := by
      cases used <;> exact store
    have copy : (Block.op .dup).effect = ⟨1, 2⟩ := rfl
    have read := ((uses.address address).apply 1 2 (by decide)).apply 1 1 (by decide)
    have computed := (read.append (pushes lawfulValue)).apply 2 1 (by decide)
    simpa [operator, copy, (pushIndirect_does type).2, mul_assoc] using
      computed.keepIf (popIndirect_does (popIndirect_lawful.mp store)).2

theorem method_takes {m : MethodRef} (few : (Callee.method m).takes ≤ Encode.maxArguments) :
    (Callee.method m).takes = m.params.length + if m.isStatic then 0 else 1 := by
  simp only [Callee.takes, MethodRef.popCount, Encode.maxArguments] at few ⊢
  omega

theorem pushAll_pushes {ts : List Term} (uses : ∀ u ∈ ts, UsesStack u)
    (typed : ∀ u ∈ ts, u.type?.isSome) (lawful : (pushAll ts).Lawful) :
    (pushAll ts).effect.Pushes ts.length (ts.map Term.voids).sum := by
  induction ts with
  | nil => exact .of_eq rfl
  | cons t rest ih =>
    rw [List.forall_mem_cons] at uses typed
    have first := uses.1.value lawful.1
    rw [Term.hasValue_of_typed typed.1] at first
    simpa [pushAll, Nat.add_comm] using first.append (ih uses.2 typed.2 lawful.2)

theorem pushArguments_pushes {args : List (Bool × Term)} (uses : ∀ arg ∈ args, UsesStack arg.2)
    (typed : ∀ arg ∈ args, arg.2.type?.isSome) (lawful : (pushArguments args).Lawful) :
    (pushArguments args).effect.Pushes args.length (args.map fun arg => arg.2.voids).sum := by
  induction args with
  | nil => exact .of_eq rfl
  | cons arg rest ih =>
    rw [List.forall_mem_cons] at uses typed
    obtain ⟨byRef, t⟩ := arg
    have first : (if byRef then (lower t).address else (lower t).value).effect.Pushes 1 t.voids := by
      have lawful := lawful.1
      cases byRef with
      | true => exact uses.1.address lawful
      | false => simpa [Term.hasValue_of_typed typed.1] using uses.1.value lawful
    simpa [pushArguments, Nat.add_comm] using first.append (ih uses.2 typed.2 lawful.2)

theorem toNat_eq_ite (b : Bool) : b.toNat = if b then 1 else 0 := by
  cases b <;> rfl

namespace UsesStack
variable {receiver array operand : Term} {indices : List Term} {args : List (Bool × Term)}
  {m : MethodRef} {type : ClosedType} {kind : Conversion}

/-- A parameter passed by reference is read and stored through the reference. -/
theorem byRefParameter (index : Nat) (type : ClosedType) :
    UsesStack (.parameter index true type) := by
  have load := effect_form (Form.loadArgument_has index)
  have value : (Block.form (.loadArgument index) ++ pushIndirect type).effect = ⟨0, 1⟩ := by
    rw [effect_seq, load, (pushIndirect_does type).2]
    rfl
  exact ⟨fun _ => .of_eq value, fun _ => .of_eq load,
    fun _ lawful => ⟨1, .of_eq load, (popIndirect_does (popIndirect_lawful.mp lawful)).2⟩,
    by simp [lower]⟩

theorem pseudo (o : Pseudo.Occurrence) : UsesStack (.pseudo o) := by
  have fetched := (callAccessor_does o).2
  have value : (callAccessor o ++ narrowPseudo o).effect = ⟨0, 1⟩ := by
    rcases narrowPseudo_does o with narrowed | narrowed
    · rw [effect_seq, fetched, narrowed.2, mul_one]
    · rw [effect_seq, fetched, narrowed.2]
      rfl
  cases storage : o.hasStorage with
  | false => exact .readOnly (by simp [lower, storage]) fun _ => .of_eq value
  | true =>
    constructor <;> rw [lower_stored storage]
    · exact fun _ => .of_eq value
    · exact fun _ => .of_eq fetched
    · exact fun _ lawful =>
        ⟨1, .of_eq fetched, (popIndirect_does (popIndirect_lawful.mp lawful)).2⟩
    · exact fun direct => Bool.noConfusion direct

theorem field (uses : UsesStack receiver) (typed : receiver.type?.isSome) (f : MemberRef) :
    UsesStack (.field (some receiver) f) := by
  have voids : (Term.field (some receiver) f).voids = receiver.voids := by
    simp [Term.voids_eq (.field (some receiver) f), Term.isVoid, Term.parts]
  have pushed (needsAddress : Bool)
      (lawful : (pushReceiver receiver (lower receiver) needsAddress).Lawful) :
      (pushReceiver receiver (lower receiver) needsAddress).effect.Pushes 1
        (Term.field (some receiver) f).voids := by
    rw [voids]
    exact uses.receiver typed lawful
  have load : (Block.onMember .ldfld f.displayField).effect = ⟨1, 1⟩ := rfl
  have loadAddress : (Block.onMember .ldflda f.displayField).effect = ⟨1, 1⟩ := rfl
  have value (lawful : (pushReceiver receiver (lower receiver) false ++
        Block.onMember .ldfld f.displayField).Lawful) :
      (pushReceiver receiver (lower receiver) false ++
        Block.onMember .ldfld f.displayField).effect.Pushes 1
          (Term.field (some receiver) f).voids := by
    simpa [load] using (pushed false lawful.1).apply 1 1 (by decide)
  constructor
  · exact value
  · simp only [lower]
    split
    · intro lawful
      simpa [loadAddress] using (pushed true lawful.1).apply 1 1 (by decide)
    · exact spilled value
  · exact fun lawful _ => ⟨1, pushed true lawful, rfl⟩
  · simp [lower]

theorem staticCall (uses : ∀ arg ∈ args, UsesStack arg.2)
    (formed : Term.Formed s (.call none m args)) : UsesStack (.call none m args) := by
  obtain ⟨static, -, count, fitted⟩ := formed
  refine .readOnly rfl fun lawful => ?_
  have pushed := pushArguments_pushes uses (fun arg member => (fitted arg member).1) lawful.1
  have takes : (Callee.method m).takes = args.length := by
    simpa [← static, count] using method_takes lawful.2.2.1
  simpa [Term.voids_eq (.call none m args), Term.isVoid, Term.parts, Term.hasValue, Term.type?,
    Term.isNull, Callee.effect, takes, Callee.leaves, Function.comp_def, toNat_eq_ite]
    using pushed.apply args.length (Callee.method m).leaves (Nat.le_refl _)

theorem call (usesReceiver : UsesStack receiver) (uses : ∀ arg ∈ args, UsesStack arg.2)
    (formed : Term.Formed s (.call (some receiver) m args)) :
    UsesStack (.call (some receiver) m args) := by
  obtain ⟨static, typed, count, fitted⟩ := formed
  refine .readOnly rfl fun lawful => ?_
  have pushed := (usesReceiver.receiver (typed receiver rfl) lawful.1.1).append <|
    pushArguments_pushes uses (fun arg member => (fitted arg member).1) lawful.1.2
  have takes : (Callee.method m).takes = 1 + args.length := by
    simpa [← static, count, Nat.add_comm] using method_takes lawful.2.2.1
  simpa [Term.voids_eq (.call (some receiver) m args), Term.isVoid, Term.parts, Term.hasValue,
    Term.type?, Term.isNull, Callee.effect, takes, Callee.leaves, Function.comp_def,
    toNat_eq_ite] using pushed.apply (1 + args.length) (Callee.method m).leaves (Nat.le_refl _)

theorem element (usesArray : UsesStack array) (uses : ∀ index ∈ indices, UsesStack index)
    (formed : Term.Formed s (.element array indices type)) :
    UsesStack (.element array indices type) := by
  obtain ⟨typed, typedIndices⟩ := formed
  have voids : (Term.element array indices type).voids =
      array.voids + (indices.map Term.voids).sum := by
    simp [Term.voids_eq (.element array indices type), Term.isVoid, Term.parts]
  have operands (lawful : ((lower array).value ++ pushAll indices).Lawful) :
      ((lower array).value ++ pushAll indices).effect.Pushes (indices.length + 1)
        (Term.element array indices type).voids := by
    have pushed := usesArray.typedValue (by simp [typed]) lawful.1
    rw [voids, effect_seq, Nat.add_comm indices.length]
    exact pushed.append (pushAll_pushes uses typedIndices lawful.2)
  constructor
  · rintro ⟨lawful, load⟩
    simpa [lower, (pushElement_does load).2, Term.hasValue, Term.type?] using
      (operands lawful).apply (indices.length + 1) 1 (Nat.le_refl _)
  · rintro ⟨lawful, load⟩
    simpa [lower, (pushElementAddress_does load).2] using
      (operands lawful).apply (indices.length + 1) 1 (Nat.le_refl _)
  · intro lawful store
    exact ⟨indices.length + 1, operands lawful, (popElement_does store).2⟩
  · simp [lower]

/-- The one conversion that takes an operand without a value misses that value. -/
theorem conversion (uses : UsesStack operand) (applies : kind.Applies operand.type? type) :
    UsesStack (.conversion kind operand type) := by
  refine .readOnly rfl fun lawful => ?_
  have pushed := uses.value lawful.1
  have voids : (Term.conversion kind operand type).voids =
      (Term.conversion kind operand type).isVoid.toNat + operand.voids := by
    simp [Term.voids_eq (.conversion kind operand type), Term.parts]
  rw [effect_seq, voids]
  cases void : (Term.conversion kind operand type).isVoid with
  | false =>
    have present : operand.hasValue = true := by
      by_cases null : kind = .nullLiteral
      · subst null
        simpa [Term.isVoid] using void
      · exact Term.hasValue_of_typed (applies.typed null)
    rw [present] at pushed
    rcases convertTop_does applies with converts | converts
    · simpa [converts.2, Term.hasValue, Term.type?] using pushed
    · simpa [converts.2, Term.hasValue, Term.type?] using pushed.apply 1 1 (by decide)
  | true =>
    cases kind with
    | nullLiteral =>
      have absent : operand.hasValue = false := by simpa [Term.isVoid] using void
      rw [absent] at pushed
      constructor
      · rw [convertTop, effect_skip, mul_one, pushed.net]
        simp [Term.hasValue, Term.type?]
      · intro none
        simp at none
    | implicitReference | numeric | boxing | unboxing | explicitReference => cases void

end UsesStack

/-- Every well-formed term uses the stack as its kind says. -/
theorem usesStack (formed : t.WellFormed s) : UsesStack t := by
  induction t, formed using Term.All.induction with
  | null => exact .readOnly rfl fun _ => .of_eq rfl
  | constant value type => exact .readOnly rfl fun _ => .of_eq (pushConstant_does value).2
  | localVar index type =>
    exact ⟨fun _ => .of_eq (effect_form (Form.loadLocal_has index)),
      fun _ => .of_eq (effect_form (Form.loadLocalAddress_has index)),
      fun _ _ => ⟨0, .of_eq rfl, effect_form (Form.storeLocal_has index)⟩, fun _ => ⟨rfl, rfl⟩⟩
  | parameter index byRef type =>
    cases byRef with
    | false =>
      exact ⟨fun _ => .of_eq (effect_form (Form.loadArgument_has index)),
        fun _ => .of_eq (effect_form (Form.loadArgumentAddress_has index)),
        fun _ _ => ⟨0, .of_eq rfl, effect_form (Form.storeArgument_has index)⟩,
        fun _ => ⟨rfl, rfl⟩⟩
    | true => exact .byRefParameter index type
  | this type =>
    refine .readOnly rfl fun _ => .of_eq ?_
    rw [effect_seq, effect_form (Form.loadArgument_has 0)]
    split <;> rfl
  | pseudo o => exact .pseudo o
  | staticField f =>
    exact ⟨fun _ => .of_eq rfl, fun _ => .of_eq rfl, fun _ _ => ⟨0, .of_eq rfl, rfl⟩, by simp [lower]⟩
  | field receiver f formed uses => exact uses.field (formed.node.2 receiver rfl) f
  | staticProperty p => exact .readOnly rfl fun _ => .of_eq rfl
  | property receiver p formed uses =>
    obtain ⟨-, typed⟩ := formed.node
    refine .readOnly rfl fun lawful => ?_
    have pushed := uses.receiver (typed receiver rfl) lawful.1
    simpa [Term.voids_eq (.property (some receiver) p), Term.isVoid, Term.parts, Term.hasValue,
      Term.type?, Callee.effect, Callee.takes, Callee.leaves] using pushed.apply 1 1 (by decide)
  | staticCall m args formed uses => exact .staticCall uses formed.node
  | call receiver m args formed usesReceiver uses => exact .call usesReceiver uses formed.node
  | element array indices type formed usesArray uses => exact .element usesArray uses formed.node
  | conversion kind operand type formed uses => exact uses.conversion formed.node
  | negate operand formed uses =>
    obtain ⟨type, p, typed, -⟩ := formed.node
    refine .readOnly rfl fun lawful => ?_
    have pushed := uses.typedValue (by simp [typed]) lawful.1
    have effect : (Block.op .neg).effect = ⟨1, 1⟩ := rfl
    simpa [Term.voids_eq (.negate operand), Term.isVoid, Term.parts, Term.hasValue, Term.type?, typed,
      effect] using pushed.apply 1 1 (by decide)
  | binary op left right type formed usesLeft usesRight =>
    obtain ⟨⟨leftType, typedLeft, -⟩, ⟨rightType, typedRight, -⟩, -⟩ := formed.node
    refine .readOnly rfl fun lawful => ?_
    have first := usesLeft.typedValue (by simp [typedLeft]) lawful.1.1
    have second := usesRight.typedValue (by simp [typedRight]) lawful.1.2
    simpa [Term.voids_eq (.binary op left right type), Term.isVoid, Term.parts, Term.hasValue,
      Term.type?, (arithmetic_does op _).2] using (first.append second).apply 2 1 (by decide)
  | coalesce left right type formed usesLeft usesRight =>
    obtain ⟨⟨leftType, typedLeft, -⟩, ⟨rightType, typedRight, -⟩⟩ := formed.node
    refine .readOnly rfl fun lawful => ?_
    have first := usesLeft.typedValue (by simp [typedLeft]) lawful.1
    have second := usesRight.typedValue (by simp [typedRight]) lawful.2.1
    have tested := ((first.apply 1 2 (by decide)).apply 1 0 (by decide)).apply 1 0 (by decide)
    simpa [Term.voids_eq (.coalesce left right type), Term.isVoid, Term.parts, Term.hasValue,
      Term.type?] using tested.append second
  | assign target value type formed uses usesValue =>
    obtain ⟨-, typed, ⟨found, typedValue, -⟩, -⟩ := formed.node
    refine .readOnly rfl fun lawful => ?_
    simp only [withType, typed] at lawful ⊢
    simpa [Term.voids_eq (.assign target value type), Term.isVoid, Term.parts, Term.hasValue,
      Term.type?] using assignTo_pushes uses (usesValue.typedValue (by simp [typedValue])) lawful
  | compound op target value type formed uses usesValue =>
    obtain ⟨-, typed, ⟨found, typedValue, -⟩, -⟩ := formed.node
    refine .readOnly rfl fun lawful => ?_
    simp only [withType, typed] at lawful ⊢
    simpa [Term.voids_eq (.compound op target value type), Term.isVoid, Term.parts, Term.hasValue,
      Term.type?] using compoundTo_pushes uses (by simp [typed])
        (usesValue.typedValue (by simp [typedValue])) lawful

/-- A term whose value is dropped leaves the stack as it was. -/
theorem discard_pushes (formed : t.WellFormed s) (lawful : (discard t).Lawful) :
    (discard t).effect.Pushes 0 t.voids := by
  have uses {u : Term} (part : u ∈ t.parts) : UsesStack u := usesStack (formed.parts u part)
  unfold discard at lawful ⊢
  split at lawful
  · rename_i target value type
    obtain ⟨-, typed, ⟨found, typedValue, -⟩, -⟩ := formed.node
    simp only [withType, typed] at lawful ⊢
    simpa [Term.voids_eq (.assign target value type), Term.isVoid, Term.parts] using
      assignTo_pushes (uses (by simp [Term.parts]))
        ((uses (by simp [Term.parts])).typedValue (by simp [typedValue])) lawful
  · rename_i op target value type
    obtain ⟨-, typed, ⟨found, typedValue, -⟩, -⟩ := formed.node
    simp only [withType, typed] at lawful ⊢
    simpa [Term.voids_eq (.compound op target value type), Term.isVoid, Term.parts] using
      compoundTo_pushes (uses (by simp [Term.parts])) (by simp [typed])
        ((uses (by simp [Term.parts])).typedValue (by simp [typedValue])) lawful
  · have pushed := (usesStack formed).value lawful.1
    have pop : (Block.op .pop).effect = ⟨1, 0⟩ := rfl
    cases present : t.hasValue with
    | true => simpa [present, pop] using (present ▸ pushed).apply 1 0 (by decide)
    | false => simpa [present] using pushed

end DebugExpr.Code
