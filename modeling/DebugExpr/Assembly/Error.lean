/-! What can be wrong with the written identity of an assembly. -/
namespace DebugExpr.Assembly

inductive Error where
  /-- The simple name is empty or holds a bracket or an equals sign, or a component has no equals
  sign. -/
  | badName (text : String)
  | badVersion (text : String)
  | badCulture (text : String)
  | badKeyToken (text : String)
  deriving DecidableEq, Repr

def Error.message : Error → String
  | .badName text => s!"Invalid assembly name '{text}'"
  | .badVersion text => s!"Invalid version '{text}'"
  | .badCulture text => s!"Invalid culture '{text}'"
  | .badKeyToken text => s!"Invalid public key token '{text}'"

end DebugExpr.Assembly
