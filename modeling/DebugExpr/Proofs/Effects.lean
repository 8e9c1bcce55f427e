import Mathlib.Algebra.BigOperators.Group.List.Basic
import Mathlib.Algebra.Ring.Nat
import DebugExpr.Code.Opcode

/-! Effects of code on the evaluation stack. Code takes values from the stack and leaves values in
their place; code that follows takes first what was left. Effects form a monoid with this
composition, and the effect of a list of instructions is the product of theirs. The product alone
says whether a stack is deep enough for every instruction of the list. -/
namespace DebugExpr.Code

/-- The values that code takes from the stack and those that it leaves. -/
structure Effect where
  takes : Nat
  leaves : Nat
  deriving DecidableEq, Repr

namespace Effect

instance : Mul Effect where
  mul first second :=
    ⟨first.takes + (second.takes - first.leaves), second.leaves + (first.leaves - second.takes)⟩

instance : One Effect where
  one := ⟨0, 0⟩

theorem mul_def (first second : Effect) : first * second =
    ⟨first.takes + (second.takes - first.leaves), second.leaves + (first.leaves - second.takes)⟩ :=
  rfl

theorem one_def : (1 : Effect) = ⟨0, 0⟩ :=
  rfl

instance : Monoid Effect where
  one_mul e := by simp [mul_def, one_def]
  mul_one e := by simp [mul_def, one_def]
  mul_assoc a b c := by
    simp only [mul_def, mk.injEq]
    omega

/-- How far the effect moves the depth of the stack. -/
def net (e : Effect) : Int :=
  e.leaves - e.takes

@[simp]
theorem net_mk (takes leaves : Nat) : net ⟨takes, leaves⟩ = leaves - takes :=
  rfl

@[simp]
theorem net_one : net 1 = 0 :=
  rfl

@[simp]
theorem net_mul (a b : Effect) : (a * b).net = a.net + b.net := by
  simp only [mul_def, net]
  omega

theorem takes_le_mul (a b : Effect) : a.takes ≤ (a * b).takes :=
  Nat.le_add_right ..

end Effect

/-- The depths of the stack behind each of the effects. -/
def depthsAfter (depth : Int) : List Effect → List Int
  | [] => []
  | e :: rest => (depth + e.net) :: depthsAfter (depth + e.net) rest

theorem depthsAfter_append (depth : Int) (first second : List Effect) :
    depthsAfter depth (first ++ second) =
      depthsAfter depth first ++ depthsAfter (depth + first.prod.net) second := by
  induction first generalizing depth with
  | nil => simp [depthsAfter]
  | cons e rest ih => simp [depthsAfter, ih, add_assoc]

/-- Behind the first effects the depth is the sum of what they move. -/
theorem depthsAfter_getElem? (depth : Int) (effects : List Effect) (k : Nat) :
    (depthsAfter depth effects)[k]? =
      if k < effects.length then some (depth + (effects.take (k + 1)).prod.net) else none := by
  induction effects generalizing depth k with
  | nil => simp [depthsAfter]
  | cons e rest ih => cases k <;> simp [depthsAfter, ih, add_assoc]

/-- The greatest depth behind any of the effects. -/
def peak (depth : Int) : List Effect → Nat
  | [] => 0
  | e :: rest => max (depth + e.net).toNat (peak (depth + e.net) rest)

theorem peak_append (depth : Int) (first second : List Effect) :
    peak depth (first ++ second) =
      max (peak depth first) (peak (depth + first.prod.net) second) := by
  induction first generalizing depth with
  | nil => simp [peak]
  | cons e rest ih => simp [peak, ih, add_assoc]

/-- No depth on the way exceeds the greatest. -/
theorem le_peak (depth : Int) {effects : List Effect} {k : Nat} (bound : k ≤ effects.length) :
    depth + (effects.take k).prod.net ≤ max depth (peak depth effects) := by
  induction effects generalizing depth k with
  | nil =>
    simp only [List.take_nil, List.prod_nil, Effect.net_one]
    omega
  | cons e rest ih =>
    cases k with
    | zero =>
      simp only [List.take_zero, List.prod_nil, Effect.net_one]
      omega
    | succ k =>
      have further := ih (depth + e.net) (Nat.le_of_succ_le_succ bound)
      simp only [List.take_succ_cons, List.prod_cons, Effect.net_mul, peak]
      omega

/-- The greatest depth is reached unless it is zero. -/
theorem peak_attained (depth : Int) (effects : List Effect) :
    peak depth effects = 0 ∨
      ∃ k ≤ effects.length, (peak depth effects : Int) = depth + (effects.take k).prod.net := by
  induction effects generalizing depth with
  | nil => exact .inl rfl
  | cons e rest ih =>
    by_cases here : peak (depth + e.net) rest ≤ (depth + e.net).toNat
    · by_cases positive : 0 < depth + e.net
      · refine .inr ⟨1, by simp, ?_⟩
        simp [peak]
        omega
      · refine .inl ?_
        simp only [peak]
        omega
    · refine .inr ?_
      obtain none | ⟨k, bound, reached⟩ := ih (depth + e.net)
      · omega
      · refine ⟨k + 1, Nat.succ_le_succ bound, ?_⟩
        simp only [peak, List.take_succ_cons, List.prod_cons, Effect.net_mul]
        omega

/-- A stack that is deep enough for the product is so for every factor. -/
theorem takes_le_depth {effects first rest : List Effect} {e : Effect} {depth : Nat}
    (split : effects = first ++ e :: rest) (deep : effects.prod.takes ≤ depth) :
    (e.takes : Int) ≤ depth + first.prod.net := by
  subst split
  have factor := Effect.takes_le_mul (first.prod * e) rest.prod
  rw [List.prod_append, List.prod_cons, ← mul_assoc] at deep
  have reached : first.prod.takes + (e.takes - first.prod.leaves) ≤ depth :=
    Nat.le_trans factor deep
  simp only [Effect.net]
  omega

/-- The effect of an instruction; that of a call depends on what it calls. -/
def Opcode.effect (op : Opcode) : Effect :=
  match op.info.effect with
  | .fixed takes leaves => ⟨takes, leaves⟩
  | .byCaller => 1

end DebugExpr.Code
