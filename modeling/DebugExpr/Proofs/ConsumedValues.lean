import DebugExpr.Proofs.SampleScope
import DebugExpr.Proofs.StackUse

/-! Values that bound terms consume. A part of a node that is used as a value leaves one, and a
conversion goes between types of the sorts that its kind is for. The absence of a type stands for two
things, though, the null literal and a call that returns nothing, and one conversion takes the call
for the literal. -/
namespace DebugExpr.Bound
open Metadata Source

namespace Term

/-- The parts of a node whose values it uses: receivers, arguments by value, arrays and indices,
operands, and values to assign. A compound assignment uses the value of its target, too. -/
def consumed : Term → List Term
  | null | constant .. | localVar .. | parameter .. | this _ | pseudo _ => []
  | field receiver _ | property receiver _ => receiver.toList
  | call receiver _ args => receiver.toList ++ (args.filter (!·.1)).map (·.2)
  | element array indices _ => array :: indices
  | conversion _ operand _ | negate operand => [operand]
  | binary _ left right _ | coalesce left right _ => [left, right]
  | assign _ value _ => [value]
  | compound _ target value _ => [target, value]

/-- The node is no conversion, or one between types of the sorts that its kind is for, of the null
literal alone if it is for that. -/
def Consistent : Term → Prop
  | conversion kind operand target =>
    kind.Applies operand.type? target ∧ (kind = .nullLiteral → operand.isNull = true)
  | _ => True

/-- The node consumes nothing but values, and converts only what its kind is for. -/
structure ValueCorrect (u : Term) : Prop where
  values : ∀ v ∈ u.consumed, v.hasValue = true
  consistent : u.Consistent

variable {s : Scope} {u operand : Term}

theorem hasValue_of_yields {type : ClosedType} (yields : s.Yields u type) : u.hasValue = true := by
  obtain ⟨found, typed, -⟩ := yields
  exact hasValue_of_typed (by simp [typed])

/-- What leaves no value is a call that returns nothing. -/
theorem call_of_no_value (formed : u.Formed s) (absent : u.hasValue = false) :
    ∃ receiver m args, u = .call receiver m args ∧ m.returns = none := by
  cases u with
  | call receiver m args =>
    exact ⟨receiver, m, args, rfl, by simpa [hasValue, type?, isNull] using absent⟩
  | negate operand =>
    obtain ⟨type, _, typed, -⟩ := formed
    simp [hasValue, type?, typed] at absent
  | _ => simp [hasValue, type?, isNull] at absent

/-- A conversion is consistent unless it takes a call that returns nothing for the null literal. -/
theorem consistent_iff (formed : u.Formed s) : u.Consistent ↔ u.isVoid = false := by
  cases u with
  | conversion kind operand target =>
    have applies : kind.Applies operand.type? target := formed
    by_cases literal : kind = .nullLiteral
    · subst literal
      have literal : operand.hasValue = operand.isNull := by simp [hasValue, applies.1]
      simp [Consistent, isVoid, applies, literal]
    · have other : (conversion kind operand target).isVoid = false := by
        cases kind <;> first | rfl | exact absurd rfl literal
      exact iff_of_true ⟨applies, fun same => absurd same literal⟩ other
  | _ => exact iff_of_true trivial rfl

/-- A node that takes no void call for the null literal consumes nothing but values. -/
theorem hasValue_of_consumed (formed : u.Formed s) (present : u.isVoid = false) :
    ∀ v ∈ u.consumed, v.hasValue = true := by
  cases u with
  | null | constant | localVar | parameter | this | pseudo => simp [consumed]
  | field receiver m | property receiver m =>
    intro v member
    exact hasValue_of_typed (formed.2 v (by simpa [consumed] using member))
  | call receiver m args =>
    obtain ⟨-, typedReceiver, -, typedArgs⟩ := formed
    simp only [consumed, List.mem_append, Option.mem_toList, List.mem_map, List.mem_filter]
    rintro v (member | ⟨arg, ⟨member, -⟩, rfl⟩)
    · exact hasValue_of_typed (typedReceiver v member)
    · exact hasValue_of_typed (typedArgs arg member).1
  | element array indices type =>
    obtain ⟨typedArray, typedIndices⟩ := formed
    refine List.forall_mem_cons.mpr ⟨hasValue_of_typed (by simp [typedArray]), ?_⟩
    exact fun v member => hasValue_of_typed (typedIndices v member)
  | conversion kind operand type =>
    refine List.forall_mem_singleton.mpr ?_
    by_cases literal : kind = .nullLiteral
    · subst literal
      simpa [isVoid] using present
    · exact hasValue_of_typed (Conversion.Applies.typed formed literal)
  | negate operand =>
    obtain ⟨type, _, typed, -⟩ := formed
    exact List.forall_mem_singleton.mpr (hasValue_of_typed (by simp [typed]))
  | binary op left right type =>
    simpa [consumed] using ⟨hasValue_of_yields formed.1, hasValue_of_yields formed.2.1⟩
  | coalesce left right type =>
    simpa [consumed] using ⟨hasValue_of_yields formed.1, hasValue_of_yields formed.2⟩
  | assign target value type =>
    exact List.forall_mem_singleton.mpr (hasValue_of_yields formed.2.2.1)
  | compound op target value type =>
    obtain ⟨-, typed, yields, -⟩ := formed
    simpa [consumed] using ⟨hasValue_of_typed (by simp [typed]), hasValue_of_yields yields⟩

theorem valueCorrect_iff (formed : u.Formed s) : u.ValueCorrect ↔ u.isVoid = false := by
  constructor
  · exact fun correct => (consistent_iff formed).mp correct.consistent
  · exact fun present =>
      ⟨hasValue_of_consumed formed present, (consistent_iff formed).mpr present⟩

end Term

namespace Term
variable {s : Scope} {u : Term}

/-- A conversion of a call that returns nothing to a reference type, as if the call were the null
literal. -/
def TakesVoidForNull (u : Term) : Prop :=
  ∃ receiver m args type, u = .conversion .nullLiteral (.call receiver m args) type ∧
    m.returns = none ∧ type.isReferenceType = true

theorem takesVoidForNull_of_isVoid (formed : u.Formed s) (below : ∀ v ∈ u.parts, v.Formed s)
    (void : u.isVoid = true) : u.TakesVoidForNull := by
  unfold isVoid at void
  split at void
  · rename_i operand type
    have absent : operand.hasValue = false := by simpa using void
    obtain ⟨receiver, m, args, rfl, returns⟩ :=
      call_of_no_value (below operand (by simp [parts])) absent
    exact ⟨receiver, m, args, type, rfl, returns, formed.2⟩
  · cases void

theorem isVoid_of_takesVoidForNull (takes : u.TakesVoidForNull) : u.isVoid = true := by
  obtain ⟨receiver, m, args, type, rfl, returns, -⟩ := takes
  simp [isVoid, hasValue, type?, returns, isNull]

end Term

/-- In a bound term the nodes that are not correct in the values that they consume are the
conversions of a call that returns nothing. -/
theorem bound_valueCorrect {s : Scope} {expr : Expr} {t : Term} (bound : s.bind expr = .ok t) :
    ∀ u ∈ t.subterms, u.ValueCorrect ↔ ¬ u.TakesVoidForNull := by
  intro u member
  have formed := Scope.bind_wellFormed bound
  have node := formed u member
  rw [Term.valueCorrect_iff node]
  constructor
  · intro present takes
    cases present.symm.trans (Term.isVoid_of_takesVoidForNull takes)
  · intro other
    by_contra void
    exact other (Term.takesVoidForNull_of_isVoid node (formed.ofParts u member) (by simpa using void))

section Instances
open Sample

/-- Reads the place of an array that an index of a small type gives: `a[i]`. -/
def place : Expr :=
  .index 0 (.name 0 "a" []) [.name 0 "i" []]

theorem place_valueCorrect : ∃ t,
    (scope [] [⟨"a", .array (type .object) 1⟩, ⟨"i", type .uint8⟩]).bind place = .ok t ∧
      ∀ u ∈ t.subterms, u.ValueCorrect := by
  obtain ⟨t, bound, present⟩ : ∃ t,
      (scope [] [⟨"a", .array (type .object) 1⟩, ⟨"i", type .uint8⟩]).bind place = .ok t ∧
        t.subterms.all (!·.isVoid) = true :=
    exists_ok_of_any (by decide +kernel)
  refine ⟨t, bound, fun u member => (bound_valueCorrect bound u member).mpr fun takes => ?_⟩
  have absent := List.all_eq_true.mp present u member
  rw [Term.isVoid_of_takesVoidForNull takes] at absent
  cases absent

/-- A cast of a call that returns nothing to the root class: `(object)Stop()`. -/
def castOfVoid : Expr :=
  .cast 0 (.keyword .object) (.invoke 0 (.name 0 "Stop" []) [])

/-- Not every node of a bound term is correct in the values that it consumes. -/
theorem castOfVoid_bound : ¬ ∀ (s : Scope) (expr : Expr) (t : Term), s.bind expr = .ok t →
    ∀ u ∈ t.subterms, u.ValueCorrect := by
  intro correct
  obtain ⟨t, bound, void⟩ : ∃ t, (scope [] []).bind castOfVoid = .ok t ∧ t.isVoid = true :=
    exists_ok_of_any (by decide +kernel)
  have consistent := (correct _ _ t bound t t.self_mem_subterms).consistent
  have node := Scope.bind_wellFormed bound t t.self_mem_subterms
  cases void.symm.trans ((Term.consistent_iff node).mp consistent)

end Instances

end DebugExpr.Bound
