import DebugExpr.Compile
import DebugExpr.Proofs.SampleScope
import DebugExpr.Proofs.StackUse
import DebugExpr.Proofs.StackVerification

/-! The methods that requests are compiled into. Whatever the snapshot, the frame and the text, a
method that the compiler answers with passes verification of its stack. -/
namespace DebugExpr
open Metadata DebugExpr.Bound DebugExpr.Code

namespace Task
variable {s : Scope} {task : Task} {c : Compiled}

/-- What binding guarantees of a task. -/
def WellFormed (s : Scope) : Task → Prop
  | value t => t.WellFormed s ∧ t.isNull = false
  | effect t => t.WellFormed s

/-- The method returns a value. -/
def returnsValue : Task → Bool
  | value t => t.hasValue
  | effect _ => false

/-- The type of the value that the method returns. -/
def returnType : Task → Option ClosedType
  | value t => t.type?
  | effect _ => none

/-- The term of an expression is compiled as it is unless it is the null literal, which is
converted. -/
theorem ofExpression_eq_ok {source : String} {options : Options}
    (h : ofExpression s source options = .ok task) :
    let s' := { s with allowsSideEffects := !options.noSideEffects }
    ∃ expr term, Source.parse source s.config.maxExpressionDepth = .ok expr ∧
      s'.bind expr = .ok term ∧ (task = effect term ∨ task = value term ∧ term.isNull = false ∨
        ∃ object converted, s'.convert term object false = .ok converted ∧
          task = value converted) := by
  obtain ⟨expr, parses, h⟩ := bind_eq_ok.mp h
  obtain ⟨term, binds, h⟩ := bind_eq_ok.mp h
  refine ⟨expr, term, parses, binds, ?_⟩
  split at h
  · exact .inl (pure_eq_ok.mp h).symm
  · split at h
    · obtain ⟨object, -, h⟩ := bind_eq_ok.mp h
      obtain ⟨converted, converts, h⟩ := bind_eq_ok.mp h
      exact .inr (.inr ⟨object, converted, converts, (pure_eq_ok.mp h).symm⟩)
    · rename_i notNull
      exact .inr (.inl ⟨(pure_eq_ok.mp h).symm, by simpa using notNull⟩)

theorem ofAssignment_eq_ok {target source : String} (h : ofAssignment s target source = .ok task) :
    ∃ left right term, Source.parse target s.config.maxExpressionDepth = .ok left ∧
      Source.parse source s.config.maxExpressionDepth = .ok right ∧
      { s with allowsSideEffects := true }.bind (.assign left.position left none right) = .ok term ∧
      task = effect term := by
  obtain ⟨left, parsesLeft, h⟩ := bind_eq_ok.mp h
  obtain ⟨right, parsesRight, h⟩ := bind_eq_ok.mp h
  obtain ⟨term, binds, h⟩ := bind_eq_ok.mp h
  exact ⟨left, right, term, parsesLeft, parsesRight, binds, (pure_eq_ok.mp h).symm⟩

theorem ofExpression_wellFormed {source : String} {options : Options}
    (h : ofExpression s source options = .ok task) :
    task.WellFormed { s with allowsSideEffects := !options.noSideEffects } := by
  obtain ⟨expr, term, -, binds, rfl | ⟨rfl, notNull⟩ | ⟨object, converted, converts, rfl⟩⟩ :=
    ofExpression_eq_ok h
  · exact Scope.bind_wellFormed binds
  · exact ⟨Scope.bind_wellFormed binds, notNull⟩
  · obtain ⟨formed, found, typed, -⟩ :=
      Scope.convert_wellFormed (Scope.bind_wellFormed binds) converts
    refine ⟨formed, ?_⟩
    cases converted <;> first | rfl | cases typed

theorem ofAssignment_wellFormed {target source : String}
    (h : ofAssignment s target source = .ok task) :
    task.WellFormed { s with allowsSideEffects := true } := by
  obtain ⟨left, right, term, -, -, binds, rfl⟩ := ofAssignment_eq_ok h
  exact Scope.bind_wellFormed binds

theorem compile_eq_ok (compiled : task.compile s = .ok c) :
    assemble (s.frame.locals.map (·.type)) task.code task.returnsValue task.returnType =
      .ok c.method := by
  cases task
  all_goals
    obtain ⟨method, assembles, h⟩ := bind_eq_ok.mp compiled
    obtain rfl := pure_eq_ok.mp h
    exact mapError_eq_ok.mp assembles

theorem returnType_isSome {s' : Scope} (formed : task.WellFormed s') :
    task.returnType.isSome = task.returnsValue := by
  cases task with
  | value t => simp [returnType, returnsValue, Term.hasValue, formed.2]
  | effect => rfl

/-- The code of a task pushes what the method returns but for the values that it misses. -/
theorem code_pushes {s' : Scope} (formed : task.WellFormed s') (lawful : task.code.Lawful) :
    ∃ missing, task.code.effect.Pushes (returned task.returnsValue) missing := by
  cases task with
  | value t =>
    refine ⟨t.voids, ?_⟩
    have pushes := (usesStack formed.1).value lawful
    cases value : t.hasValue <;> simpa [returnsValue, returned, value, code] using pushes
  | effect t => exact ⟨t.voids, discard_pushes formed lawful⟩

/-- The method passes verification with calls that take and leave what the members say that the
code of the task calls. -/
def Verifies (task : Task) (m : MethodBody) : Prop :=
  ∃ code, annotate m.returnType.isSome m.instructions task.code.callees = some code ∧ Verified m code

theorem compile_verifies {s' : Scope} (formed : task.WellFormed s')
    (compiled : task.compile s = .ok c) : task.Verifies c.method := by
  obtain ⟨⟨lawful, -, level⟩, offset, isOf, returns⟩ := assemble_sound (compile_eq_ok compiled)
  obtain ⟨missing, pushes⟩ := code_pushes formed lawful
  -- the net effect is what the method returns, so no value is missing
  have exact := pushes.exact (by
    have net := pushes.net
    omega)
  have hasValue : c.method.returnType.isSome = task.returnsValue := by
    rw [returns, returnType_isSome formed]
  refine ⟨MethodBody.IsOf.code c.method task.code task.returnsValue, ?_,
    isOf.verified lawful exact hasValue⟩
  rw [hasValue]
  exact isOf.annotates lawful

end Task

/-- Whatever the compiler answers with passes verification. -/
theorem compiled_verifies (s : Scope) (c : Compiled) :
    (∀ source options, compile s source options = .ok c →
      ∃ task, Task.ofExpression s source options = .ok task ∧ task.Verifies c.method) ∧
    ∀ target source, compileAssignment s target source = .ok c →
      ∃ task, Task.ofAssignment s target source = .ok task ∧ task.Verifies c.method := by
  constructor
  · intro source options compiled
    obtain ⟨task, bound, compiled⟩ := bind_eq_ok.mp compiled
    exact ⟨task, bound, Task.compile_verifies (Task.ofExpression_wellFormed bound) compiled⟩
  · intro target source compiled
    obtain ⟨task, bound, compiled⟩ := bind_eq_ok.mp compiled
    exact ⟨task, bound, Task.compile_verifies (Task.ofAssignment_wellFormed bound) compiled⟩

/-- The method of a choice between two assignments, which are used as values. -/
theorem choice_verifies : ∃ c task,
    let s := Sample.scope [] [⟨"x", Sample.type .object⟩, ⟨"y", Sample.type .object⟩]
    compile s "(x = y) ?? (y = null)" {} = .ok c ∧
      Task.ofExpression s "(x = y) ?? (y = null)" {} = .ok task ∧ task.Verifies c.method := by
  obtain ⟨c, compiled⟩ := ok_of_isSome (x := compile
    (Sample.scope [] [⟨"x", Sample.type .object⟩, ⟨"y", Sample.type .object⟩])
    "(x = y) ?? (y = null)" {}) (by decide +kernel)
  obtain ⟨task, bound, verifies⟩ := (compiled_verifies _ c).1 _ _ compiled
  exact ⟨c, task, compiled, bound, verifies⟩

end DebugExpr
