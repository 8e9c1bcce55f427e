import DebugExpr.Assembly.Error

/-! What can be wrong with an assembly-qualified type name. Positions count characters from zero. -/
namespace DebugExpr.QualifiedName

inductive Error where
  | unexpectedEnd
  | unexpectedCharacter (character : Char) (position : Nat)
  | emptyName (position : Nat)
  /-- A backtick at the position without an arity in range behind it. -/
  | badArity (position : Nat)
  /-- The generic arguments are not as many as the arities of the name add up to. -/
  | arityMismatch (expected found : Nat)
  | badRank (rank : Nat)
  | assembly (error : Assembly.Error)
  /-- Generic arguments are nested deeper than the limit. -/
  | tooDeep (limit : Nat)
  deriving DecidableEq, Repr

def Error.message : Error → String
  | .unexpectedEnd => "Unexpected end of type name"
  | .unexpectedCharacter character position =>
    s!"Unexpected character '{character}' at position {position}"
  | .emptyName position => s!"Empty name at position {position}"
  | .badArity position => s!"Invalid generic arity at position {position}"
  | .arityMismatch expected found => s!"Expected {expected} generic arguments, found {found}"
  | .badRank rank => s!"Invalid array rank {rank}"
  | .assembly error => error.message
  | .tooDeep limit => s!"Type name nesting exceeds {limit} levels"

end DebugExpr.QualifiedName
