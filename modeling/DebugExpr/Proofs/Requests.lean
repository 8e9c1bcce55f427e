import DebugExpr.Compile
import DebugExpr.Proofs.TrackedBinding

/-! Requests, and their answers side by side. Reading an expression asks for nothing outside it, and
neither does coding a bound one, so that a request is answered alike where binding is. -/
namespace DebugExpr
open Metadata DebugExpr.Bound DebugExpr.Source

/-- What the debugger asks to have compiled. -/
inductive Request where
  | expression (source : String) (options : Options)
  | assignment (target source : String)

namespace Request
variable {s : Scope}

/-- The answer to the request. -/
def compile (s : Scope) : Request → Except Error Compiled
  | expression source options => DebugExpr.compile s source options
  | assignment target source => compileAssignment s target source

/-- The expression that the request is about. -/
def parse (s : Scope) : Request → Except Error Expr
  | expression source _ => Source.parse source s.config.maxExpressionDepth
  | assignment target source => do
    let target ← Source.parse target s.config.maxExpressionDepth
    let value ← Source.parse source s.config.maxExpressionDepth
    return .assign target.position target none value

/-- The scope in which the expression is bound. -/
def scope (s : Scope) : Request → Scope
  | expression _ options => { s with allowsSideEffects := !options.noSideEffects }
  | assignment .. => { s with allowsSideEffects := true }

/-- What becomes of the bound expression. -/
def task (s : Scope) (e : Expr) (term : Term) : Request → Except Error Task
  | expression _ options => do
    if e.isAssignment && !options.treatAsExpression then return .effect term
    else if term.isNull then
      let object ← s.snapshot.primitive .object
      return .value (← s.convert term object false)
    else return .value term
  | assignment .. => return .effect term

/-- A request is read, bound, and compiled. -/
theorem compile_eq (request : Request) : request.compile s = (do
    let e ← request.parse s
    let term ← (request.scope s).bind e
    let task ← request.task (request.scope s) e term
    task.compile s) := by
  cases request with
  | expression source options =>
    simp only [compile, DebugExpr.compile, Task.ofExpression, parse, scope, task, bind_assoc]
  | assignment target source =>
    simp only [compile, compileAssignment, Task.ofAssignment, parse, scope, task, bind_assoc, pure_bind]

/-- A text that cannot be read and a term that has no code miss no assembly. -/
theorem parse_raises (request : Request) : Raises Error.IsPlain (request.parse s) := by
  have reads : ∀ text, Raises Error.IsPlain (Source.parse text s.config.maxExpressionDepth) :=
    fun text => (Source.parse_raises text _).mono fun _ => OfText.missingAssemblies
  cases request with
  | expression source options => exact reads source
  | assignment target source =>
    exact (reads target).bind fun _ => (reads source).bind fun _ => raises_ok

theorem task_raises (task : Task) : Raises Error.IsPlain (task.compile s) := by
  have malformed : ∀ method : Except Code.Fault Code.MethodBody,
      Raises Error.IsPlain (method.mapError .malformed) := fun _ => raises_mapError fun _ => rfl
  cases task with
  | value | effect => exact (malformed _).bind fun _ => raises_ok

section Tracking
variable {Same Free : Error → Prop} {Anywhere : Prop} {snapshot : Snapshot}
  {context : Pseudo.Context}

theorem scope_moved (request : Request) :
    request.scope (s.moved snapshot context) = (request.scope s).moved snapshot context := by
  cases request <;> rfl

theorem task_tracks (follows : Follows Same Free Anywhere s snapshot context) (request : Request)
    {e : Expr} {t : Term} (known : Anywhere ∨ t.Held s.snapshot) :
    Tracks Same Free (request.task s e t) (request.task (s.moved snapshot context) e t) := by
  cases request with
  | assignment => exact .ok _
  | expression source options =>
    simp only [task]
    split
    · exact .ok _
    split
    · refine (Snapshot.primitive_tracks follows.agree _).bind fun object named => ?_
      exact (Scope.convert_tracks follows.agree known
        (.inr (Snapshot.holds_primitive named))).bind fun _ _ => .ok _
    · exact .ok _

/-- A request is answered alike where binding its expression gets the same answers at every node. -/
theorem compile_tracks (follows : Follows Same Free Anywhere s snapshot context)
    (request : Request) (answers : ∀ e, request.parse s = .ok e → ∀ sub ∈ e.subexprs,
      Answers Same Free (request.scope s) snapshot context sub) :
    Tracks Same Free (request.compile s) (request.compile (s.moved snapshot context)) := by
  have within : Follows Same Free Anywhere (request.scope s) snapshot context := by
    cases request <;> exact ⟨follows.agree, follows.frame, follows.home⟩
  have reads : Tracks Same Free (request.parse s) (request.parse (s.moved snapshot context)) := by
    have same : request.parse (s.moved snapshot context) = request.parse s := by
      cases request <;> rfl
    rw [same]
    exact Scope.plain_tracks within request.parse_raises
  rw [compile_eq, compile_eq, scope_moved]
  refine reads.bind fun e parsed => ?_
  refine (Scope.bind_tracks within e (answers e parsed)).bind fun t binds => ?_
  refine (task_tracks within request (Scope.bind_known within binds)).bind fun task _ => ?_
  exact Scope.plain_tracks within (task_raises task)

end Tracking

end Request
end DebugExpr
