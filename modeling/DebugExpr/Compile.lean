import DebugExpr.Bound.Bind
import DebugExpr.Code.Lower

/-! Compilation of an expression that the user types while a process is suspended, into a method
that the debugger can run in it. -/
namespace DebugExpr
open Metadata DebugExpr.Bound

/-- What a request asks for beyond the expression. -/
structure Options where
  /-- An assignment yields the assigned value instead of nothing. -/
  treatAsExpression : Bool := false
  /-- An expression that writes state is refused. -/
  noSideEffects : Bool := false
  deriving DecidableEq, Repr

/-- A compiled expression: its method and what the debugger shows of its result. -/
structure Compiled where
  method : Code.MethodBody
  /-- Absent for a statement. -/
  resultType : Option ClosedType
  /-- The result is no variable and cannot be edited. -/
  readOnly : Bool
  /-- The result is a truth value. -/
  isBoolean : Bool

/-- What is to be compiled once names are resolved. -/
inductive Task where
  /-- The value of a term, to be returned. -/
  | value (t : Term)
  /-- The effects of a term, whose value is dropped. -/
  | effect (t : Term)

namespace Task

/-- The code of the method before its return. -/
def code : Task → Code.Block
  | value t => (Code.lower t).value
  | effect t => Code.discard t

/-- Compiles a task into a method for the frame of the scope. -/
def compile (s : Scope) : Task → Except Error Compiled
  | value t => do
    let method ← (Code.expressionMethod (s.frame.locals.map (·.type)) t).mapError .malformed
    return {
      method
      resultType := t.type?
      readOnly := !t.isAssignable
      isBoolean := t.type?.bind ClosedType.primitive? == some .boolean }
  | effect t => do
    let method ← (Code.statementMethod (s.frame.locals.map (·.type)) t).mapError .malformed
    return { method, resultType := none, readOnly := true, isBoolean := false }

/-- The task of an expression. An assignment at its root is a statement unless the options say
otherwise, and the null literal has the root class as its type. -/
def ofExpression (s : Scope) (source : String) (options : Options) : Except Error Task := do
  let expr ← Source.parse source s.config.maxExpressionDepth
  let s := { s with allowsSideEffects := !options.noSideEffects }
  let term ← s.bind expr
  if expr.isAssignment && !options.treatAsExpression then return effect term
  else if term.isNull then
    let object ← s.snapshot.primitive .object
    return value (← s.convert term object false)
  else return value term

/-- The task of the assignment of one expression to another, a statement. -/
def ofAssignment (s : Scope) (target source : String) : Except Error Task := do
  let target ← Source.parse target s.config.maxExpressionDepth
  let value ← Source.parse source s.config.maxExpressionDepth
  let term ← { s with allowsSideEffects := true }.bind (.assign target.position target none value)
  return effect term

end Task

/-- Compiles an expression. -/
def compile (s : Scope) (source : String) (options : Options) : Except Error Compiled := do
  (← Task.ofExpression s source options).compile s

/-- Compiles the assignment of one expression to another. -/
def compileAssignment (s : Scope) (target source : String) : Except Error Compiled := do
  (← Task.ofAssignment s target source).compile s

end DebugExpr
