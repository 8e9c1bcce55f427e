import DebugExpr.Assembly.Identity
import DebugExpr.QualifiedName.Reader
import DebugExpr.Source.Parse

/-! Settings of a compilation: how type names of the debugger are matched against loaded modules,
and how deeply nested input may be. -/
namespace DebugExpr.Bound

structure Config where
  matching : Assembly.Matching := .nameOnly
  /-- Nesting of generic arguments in a type name. -/
  maxTypeNameDepth : Nat := QualifiedName.defaultMaxDepth
  /-- Nesting of an expression. -/
  maxExpressionDepth : Nat := Source.defaultMaxDepth
  /-- Length of a chain of base types in conversions and in the search for members. -/
  maxInheritanceDepth : Nat := 64
  deriving DecidableEq, Repr

namespace Config

/-- Every stated component of an assembly has to match. -/
def strict : Config :=
  { matching := .exact }

/-- Matching by name, with room for deep nesting. -/
def lenient : Config :=
  { maxTypeNameDepth := 256, maxExpressionDepth := 512, maxInheritanceDepth := 256 }

end Config

end DebugExpr.Bound
