import DebugExpr.Assembly.Identity
import DebugExpr.Code.Fault
import DebugExpr.QualifiedName.Error

/-! Everything that can keep an expression from being compiled. -/
namespace DebugExpr

/-- How an expression was used that cannot be assigned to. -/
inductive AssignmentUse where
  /-- Left of an assignment. -/
  | target
  /-- Argument passed by reference. -/
  | refArgument
  deriving DecidableEq, Repr

inductive Error where
  | undefinedName (name : String)
  /-- An object id with the retired trailing sharp sign. -/
  | legacyObjectId (position : Nat)
  | notAssignable (use : AssignmentUse)
  /-- The type exists but cannot be represented; loading more assemblies does not help. -/
  | unsupportedType (name : String)
  /-- Assemblies that the host may load before it asks again, each once. -/
  | missingAssembly (references : List Assembly.Reference)
  | malformedTypeName (cause : QualifiedName.Error)
  | badSyntax (position : Nat) (message : String)
  | undefinedGlobalName (name : String)
  | memberNotFound (typeName member : String)
  | typeArgumentsNotAllowed (variableName : String)
  | methodNameExpected
  | noConversion (source target : String)
  | operatorNotApplicable (operator left right : String)
  | argumentMismatch (method : String)
  | typeNotFound (name : String)
  | sideEffectsNotAllowed
  | recursionLimit (limit : Nat)
  | malformed (fault : Code.Fault)
  deriving DecidableEq

namespace Error

def message : Error → String
  | undefinedName name => s!"The name '{name}' does not exist in the current context"
  | legacyObjectId _ => "'id#' syntax is no longer supported. Use '$id' instead."
  | notAssignable .target =>
    "The left-hand side of an assignment must be a variable, property or indexer"
  | notAssignable .refArgument => "A ref or out argument must be an assignable variable"
  | unsupportedType name => s!"'{name}' is a type not supported by the language"
  | missingAssembly references =>
    s!"Assemblies not loaded: {Assembly.Reference.displayAll references}"
  | malformedTypeName cause => s!"Malformed type descriptor - {cause.message}"
  | badSyntax position message => s!"Syntax error at {position}: {message}"
  | undefinedGlobalName name =>
    s!"The type or namespace name '{name}' could not be found in the global namespace"
  | memberNotFound typeName member => s!"'{typeName}' does not contain a definition for '{member}'"
  | typeArgumentsNotAllowed variableName =>
    s!"The variable '{variableName}' cannot be used with type arguments"
  | methodNameExpected => "Method name expected"
  | noConversion source target => s!"Cannot convert type '{source}' to '{target}'"
  | operatorNotApplicable operator left right =>
    s!"Operator '{operator}' cannot be applied to operands of type '{left}' and '{right}'"
  | argumentMismatch method => s!"No overload for method '{method}' takes these arguments"
  | typeNotFound name => s!"The type or namespace name '{name}' could not be found"
  | sideEffectsNotAllowed => "Expression has side effects and cannot be evaluated"
  | recursionLimit limit => s!"Reach the maximum recursion level allowed - {limit}"
  | malformed fault => fault.message

/-- The assemblies whose loading could mend the error. -/
def missingAssemblies : Error → List Assembly.Reference
  | missingAssembly references => references
  | _ => []

end Error

end DebugExpr
