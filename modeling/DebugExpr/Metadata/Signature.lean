import DebugExpr.Metadata.Primitive

/-! Type signatures: the types of members as their module writes them, before they are bound to
loaded types. -/
namespace DebugExpr.Metadata

inductive Signature where
  /-- A definition by its metadata name, in a stated assembly or in the one that writes the
  signature. -/
  | named (assembly : Option String) (name : String) (args : List Signature)
  /-- A generic parameter of the declaring type, by position. -/
  | typeParameter (index : Nat)
  /-- A generic parameter of the method, by position. -/
  | methodParameter (index : Nat)
  | array (element : Signature) (rank : Nat)
  deriving Repr, Inhabited

/-- The brackets of an array of the given rank. -/
def rankBrackets (rank : Nat) : String :=
  String.ofList ('[' :: List.replicate (rank - 1) ',' ++ [']'])

namespace Signature

/-- A type without generic arguments, of the same module or of the core library. -/
def plain (name : String) : Signature :=
  .named none name []

def ofPrimitive (p : Primitive) : Signature :=
  plain p.fullName

mutual

def display : Signature → String
  | .named assembly name args =>
    (assembly.map fun a => s!"[{a}]").getD "" ++ name ++
      if args.isEmpty then "" else "<" ++ ", ".intercalate (displayAll args) ++ ">"
  | .typeParameter index => s!"!{index}"
  | .methodParameter index => s!"!!{index}"
  | .array element rank => display element ++ rankBrackets rank

def displayAll : List Signature → List String
  | [] => []
  | s :: rest => display s :: displayAll rest

end

end Signature

end DebugExpr.Metadata
