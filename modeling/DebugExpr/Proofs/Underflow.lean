import DebugExpr.Proofs.JoinDepths

/-! Underflow of the evaluation stack. The encoder moves the depth once for each instruction, by the
values left less those taken, and compares only the depth behind the instruction with zero. So where
a request is met the values that its instruction takes were on the stack but for as many as it leaves
in their place: for an instruction that only takes or only leaves the comparison is exact, and for
one that does both it is not. -/
namespace DebugExpr.Code
open Metadata

/-- Neither the depth nor a depth noted at a branch is below zero. -/
structure Encoder.Grounded (e : Encoder) : Prop where
  depth : 0 ≤ e.depth
  noted : ∀ noted ∈ e.branchDepths, 0 ≤ noted.2

theorem grounded_start (locals : List ClosedType) : (Encoder.ofLocals locals).Grounded :=
  ⟨Int.le_refl 0, nofun⟩

theorem Encoder.Grounded.expected {e : Encoder} (grounded : e.Grounded) {label : Label}
    {depth : Int} (noted : e.expectedDepth? label = some depth) : 0 ≤ depth := by
  obtain ⟨_, found, rfl⟩ := Option.map_eq_some_iff.mp noted
  exact grounded.noted _ (List.mem_of_find?_eq_some found)

namespace Call
variable {c : Call} {e : Encoder}

/-- A request that is met leaves no depth below zero where there was none. -/
theorem grounded_next (met : (Encode.result c.perform e).1 = .ok ()) (grounded : e.Grounded) :
    (c.next e).Grounded := by
  have writes := c.writes e
  rw [met] at writes
  generalize c.next e = e' at writes
  cases writes with
  | plain hasEffect flow items labels moves =>
    obtain ⟨-, -, inRange, branchDepths⟩ := moves rfl
    exact ⟨inRange.1, branchDepths ▸ grounded.noted⟩
  | branch hasEffect known items labels made =>
    refine ⟨(made rfl).inRange.1, fun noted member => ?_⟩
    obtain older | here := (made rfl).newer noted member
    · exact grounded.noted noted older
    · exact here ▸ (made rfl).inRange.1
  | ret items labels branchDepths ends =>
    exact ⟨(ends rfl).inRange.1, branchDepths ▸ grounded.noted⟩
  | placeLabel fresh items labels joins =>
    refine ⟨?_, (joins rfl).branchDepths ▸ grounded.noted⟩
    obtain same | noted := (joins rfl).level
    · exact same ▸ grounded.depth
    · exact grounded.expected noted
  | newLabel => exact ⟨grounded.depth, grounded.noted⟩
  | newLocal type => exact ⟨grounded.depth, grounded.noted⟩

/-- The encoder can hold the depth behind the instruction of a request that is met. -/
theorem inRange_of_met (met : (Encode.result c.perform e).1 = .ok ())
    (reachable : e.unreachable = false) {effect : Effect} (hasEffect : c.effect? = some effect) :
    InRange (e.depth + effect.net) := by
  have writes := c.writes e
  rw [met] at writes
  generalize c.next e = e' at writes
  cases writes with
  | plain moved flow items labels moves =>
    obtain rfl : _ = effect := Option.some.inj (moved.symm.trans hasEffect)
    exact (moves rfl).depth reachable ▸ (moves rfl).inRange
  | branch moved known items labels made =>
    obtain rfl : _ = effect := Option.some.inj (moved.symm.trans hasEffect)
    exact (made rfl).depth reachable ▸ (made rfl).inRange
  | ret items labels branchDepths ends =>
    obtain rfl : _ = effect := Option.some.inj hasEffect
    exact (ends rfl).depth reachable ▸ (ends rfl).inRange
  | newLabel => cases hasEffect
  | placeLabel => cases hasEffect
  | newLocal => cases hasEffect

end Call

theorem Encoder.grounded_serve {e : Encoder} {calls : List Call} (accepted : e.Accepts calls)
    (grounded : e.Grounded) : (e.serve calls).Grounded := by
  induction calls generalizing e with
  | nil => exact grounded
  | cons c rest ih => exact ih accepted.2 (Call.grounded_next accepted.1 grounded)

/-- Where control reaches a request of a session and the request is met, the values that its
instruction takes were on the stack, but for as many as the instruction leaves. Behind requests that
were all met they were all there, unless the instruction both takes and leaves values. -/
theorem taken_values_on_stack {locals : List ClosedType} {calls : List Call} {c : Call}
    {effect : Effect} (hasEffect : c.effect? = some effect)
    (reachable : ((Encoder.ofLocals locals).serve calls).unreachable = false)
    (met : (Encode.result c.perform ((Encoder.ofLocals locals).serve calls)).1 = .ok ()) :
    effect.takes ≤ ((Encoder.ofLocals locals).serve calls).depth + effect.leaves ∧
      ((Encoder.ofLocals locals).Accepts calls → effect.takes = 0 ∨ effect.leaves = 0 →
        effect.takes ≤ ((Encoder.ofLocals locals).serve calls).depth) := by
  obtain ⟨behind, -⟩ := Call.inRange_of_met met reachable hasEffect
  simp only [Effect.net] at behind
  refine ⟨by omega, fun accepted oneSided => ?_⟩
  have before := (Encoder.grounded_serve accepted (grounded_start locals)).depth
  omega

theorem taken_values_on_stack_of_pop :
    (Call.emit "pop" .none).effect? = some ⟨1, 0⟩ ∧
      (Encoder.ofLocals []).Accepts [.emit "ldnull" .none] ∧
      (1 : Int) ≤ ((Encoder.ofLocals []).serve [.emit "ldnull" .none]).depth := by
  have hasEffect : (Call.emit "pop" .none).effect? = some ⟨1, 0⟩ := rfl
  have accepted : (Encoder.ofLocals []).Accepts [.emit "ldnull" .none] := ⟨rfl, trivial⟩
  exact ⟨hasEffect, accepted,
    (taken_values_on_stack hasEffect rfl rfl).2 accepted (.inr rfl)⟩

/-- An instruction that takes two values and leaves one is accepted behind a single value. -/
theorem add_behind_one_value :
    ¬ ∀ (locals : List ClosedType) (calls : List Call) (c : Call) (effect : Effect),
      c.effect? = some effect →
      ((Encoder.ofLocals locals).serve calls).unreachable = false →
      (Encode.result c.perform ((Encoder.ofLocals locals).serve calls)).1 = .ok () →
      effect.takes ≤ ((Encoder.ofLocals locals).serve calls).depth := by
  intro deep
  have hasEffect : (Call.emit "add" .none).effect? = some ⟨2, 1⟩ := rfl
  have short : ((2 : Nat) : Int) ≤ 1 :=
    deep [] [.emit "ldnull" .none] (.emit "add" .none) ⟨2, 1⟩ hasEffect rfl rfl
  cases short

end DebugExpr.Code
