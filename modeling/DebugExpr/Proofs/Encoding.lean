import DebugExpr.Code.Encoder
import DebugExpr.Proofs.Effects

/-! Successful runs of the encoder. As long as every instruction can be reached, each encoding step
succeeds under a condition on the encoder before it and changes it in one way, and a step that
succeeds is inverted into both. -/
namespace DebugExpr.Code
open Metadata

/-- The encoder behind one more instruction of the effect. -/
def Encoder.after (e : Encoder) (item : Item) (effect : Effect) : Encoder :=
  { e with
    items := e.items.push item
    depth := e.depth + effect.net
    maxDepth := max e.maxDepth (e.depth + effect.net).toNat }

/-- A depth that the encoder can hold. -/
def InRange (depth : Int) : Prop :=
  0 ≤ depth ∧ depth ≤ Encoder.depthLimit

namespace Encode
variable {α β : Type} {e e' : Encoder}

/-- What a step answers, and the encoder behind it. -/
def result (p : Encode α) (e : Encoder) : Except Fault α × Encoder :=
  p.run e

/-- The step succeeds on the encoder with the answer and the encoder given. -/
def Runs (p : Encode α) (e : Encoder) (a : α) (e' : Encoder) : Prop :=
  result p e = (.ok a, e')

theorem result_bind (p : Encode α) (f : α → Encode β) (e : Encoder) :
    result (p >>= f) e =
      match result p e with
      | (.ok a, middle) => result (f a) middle
      | (.error fault, middle) => (.error fault, middle) := by
  change (match result p e with | (answer, middle) => ExceptT.bindCont f answer middle) = _
  rcases result p e with ⟨_ | _, _⟩ <;> rfl

theorem runs_bind {p : Encode α} {f : α → Encode β} {b : β} :
    Runs (p >>= f) e b e' ↔ ∃ a middle, Runs p e a middle ∧ Runs (f a) middle b e' := by
  unfold Runs
  rw [result_bind]
  rcases result p e with ⟨_ | _, _⟩ <;> simp

/-- The step succeeds on the encoder. -/
def Succeeds (p : Encode α) (e : Encoder) : Prop :=
  ∃ a e', Runs p e a e'

theorem Succeeds.bind {p : Encode α} {f : α → Encode β} {a : α} {middle : Encoder}
    (first : Runs p e a middle) (rest : Succeeds (f a) middle) : Succeeds (p >>= f) e := by
  obtain ⟨b, e', rest⟩ := rest
  exact ⟨b, e', runs_bind.mpr ⟨a, middle, first, rest⟩⟩

@[simp]
theorem runs_pure {a b : α} : Runs (pure a) e b e' ↔ a = b ∧ e = e' := by
  change (Except.ok a, e) = (Except.ok b, e') ↔ _
  simp

@[simp]
theorem not_runs_throw {f : Fault} {a : α} : ¬ Runs (throw f) e a e' := by
  change ¬ (Except.error f, e) = (Except.ok a, e')
  simp

@[simp]
theorem runs_get {a : Encoder} : Runs get e a e' ↔ e = a ∧ e = e' := by
  change (Except.ok e, e) = (Except.ok a, e') ↔ _
  simp

@[simp]
theorem runs_set {next : Encoder} {u : Unit} : Runs (set next) e u e' ↔ next = e' := by
  change (Except.ok (), next) = (Except.ok u, e') ↔ _
  simp

@[simp]
theorem runs_modify {f : Encoder → Encoder} {u : Unit} : Runs (modify f) e u e' ↔ f e = e' := by
  change (Except.ok (), f e) = (Except.ok u, e') ↔ _
  simp

theorem runs_ite {condition : Prop} [Decidable condition] {p q : Encode α} {a : α} :
    Runs (if condition then p else q) e a e' ↔
      (condition ∧ Runs p e a e') ∨ (¬ condition ∧ Runs q e a e') := by
  split <;> simp [*]

theorem adjust_runs (reachable : e.unreachable = false) {takes leaves : Nat} {u : Unit} :
    Runs (adjust takes leaves) e u e' ↔
      InRange (e.depth + Effect.net ⟨takes, leaves⟩) ∧
        e' = { e with
          depth := e.depth + Effect.net ⟨takes, leaves⟩
          maxDepth := max e.maxDepth (e.depth + Effect.net ⟨takes, leaves⟩).toNat } := by
  have moved : e.depth + leaves - takes = e.depth + Effect.net ⟨takes, leaves⟩ := by
    simp only [Effect.net]
    omega
  unfold adjust InRange
  generalize Effect.net ⟨takes, leaves⟩ = net at *
  simp only [runs_bind, runs_modify, runs_get, runs_ite, moved, reachable]
  simp [and_assoc, eq_comm (a := e')]

/-- An instruction with a fixed effect after which control goes on. -/
def Emittable (op : Opcode) (operand : Operand) : Prop :=
  op.info.effect ≠ .byCaller ∧ op.info.flow = .next ∧ operand.fits op.operand = true

instance (op : Opcode) (operand : Operand) : Decidable (Emittable op operand) :=
  inferInstanceAs (Decidable (_ ∧ _ ∧ _))

theorem emit_runs (reachable : e.unreachable = false) {op : Opcode} {operand : Operand}
    {u : Unit} :
    Runs (emit op operand) e u e' ↔
      Emittable op operand ∧ InRange (e.depth + op.effect.net) ∧
        e' = e.after (.plain op operand) op.effect := by
  unfold emit Emittable Opcode.effect Encoder.after
  cases op.info.effect with
  | byCaller => simp
  | fixed takes leaves =>
    simp only [runs_bind, runs_ite, push]
    simp [adjust_runs, reachable, and_assoc]

/-- An instruction that calls what its token names. -/
def Callable (op : Opcode) : Prop :=
  op.info.effect = .byCaller ∧ op.operand = .token

instance (op : Opcode) : Decidable (Callable op) :=
  inferInstanceAs (Decidable (_ ∧ _))

theorem call_runs (reachable : e.unreachable = false) {op : Opcode} {member : String}
    {takes leaves : Nat} {u : Unit} :
    Runs (call op member takes leaves) e u e' ↔
      Callable op ∧ takes ≤ maxArguments ∧ leaves ≤ maxArguments ∧
        InRange (e.depth + Effect.net ⟨takes, leaves⟩) ∧
        e' = e.after (.plain op (.member member)) ⟨takes, leaves⟩ := by
  unfold call Callable Encoder.after
  simp only [runs_bind, runs_ite, push]
  simp [adjust_runs, reachable]

theorem newLabel_runs {label : Label} :
    Runs newLabel e label e' ↔
      label = ⟨e.labels.size⟩ ∧ e' = { e with labels := e.labels.push none } := by
  unfold newLabel
  simp only [runs_bind, runs_get, runs_set, runs_pure]
  simp [eq_comm]

theorem newLocal_runs {type : ClosedType} {slot : Nat} :
    Runs (newLocal type) e slot e' ↔
      e.locals.size < UInt16.size ∧ slot = e.locals.size ∧
        e' = { e with locals := e.locals.push type } := by
  unfold newLocal
  simp only [runs_bind, runs_get, runs_ite, runs_set, runs_pure]
  simp [eq_comm]

theorem branch_runs (reachable : e.unreachable = false) {label : Label} {u : Unit}
    (known : label.id < e.labels.size) (first : e.expectedDepth? label = none) :
    Runs (branch .brtrue label) e u e' ↔
      InRange (e.depth + Effect.net ⟨1, 0⟩) ∧
        e' = { e.after (.branch .ifTrue false label) ⟨1, 0⟩ with
          branchDepths := (label, e.depth + Effect.net ⟨1, 0⟩) :: e.branchDepths } := by
  have first (items depth maxDepth) : Encoder.expectedDepth?
      { e with items, depth, maxDepth, unreachable := false } label = none := first
  unfold branch requireLabel noteBranch Encoder.after
  simp only [Condition.ofLong?, runs_bind, runs_get, runs_ite, push]
  simp [adjust_runs, reachable, known, first, Condition.pops, eq_comm (a := e')]

/-- Where control falls through to a label, the depth has to agree with the branch to it. -/
theorem placeLabel_runs (reachable : e.unreachable = false) {label : Label} {u : Unit}
    {expected : Int} (fresh : e.labels[label.id]? = some none)
    (branched : e.expectedDepth? label = some expected) :
    Runs (placeLabel label) e u e' ↔
      e.depth = expected ∧
        e' = { e with labels := e.labels.setIfInBounds label.id (some e.items.size) } := by
  obtain ⟨known, undefined⟩ := Array.getElem?_eq_some_iff.mp fresh
  unfold placeLabel requireLabel
  simp only [runs_bind, runs_get, runs_ite]
  simp [reachable, known, undefined, branched, runs_ite, eq_comm (a := e')]

theorem ret_runs (reachable : e.unreachable = false) {hasValue : Bool} {u : Unit} :
    Runs (ret hasValue) e u e' ↔
      e.depth = ((if hasValue then 1 else 0 : Nat) : Int) ∧
        e' = { e.after (.plain .ret .none) ⟨if hasValue then 1 else 0, 0⟩ with
          unreachable := true } := by
  unfold ret Encoder.after
  generalize (if hasValue then 1 else 0 : Nat) = count
  have emptied : InRange (e.depth + -count) ∧ e.depth + -count = 0 ↔ e.depth = count := by
    unfold InRange
    omega
  simp only [runs_bind, runs_get, runs_ite, push]
  simp [adjust_runs, reachable, ← emptied, and_assoc, eq_comm (a := e')]

end Encode

end DebugExpr.Code
