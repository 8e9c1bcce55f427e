import DebugExpr.Bound.Term

/-! Inference of the type arguments of a generic method from the types of its arguments. Wherever a
signature has a parameter of the method, the type at its place is its argument; all places have to
agree. Where signature and type differ in shape nothing is inferred. -/
namespace DebugExpr.Bound
open Metadata

/-- The type arguments inferred so far, by position. -/
abbrev Inferred := List (Option ClosedType)

/-- Takes a type for the argument at a position. A position out of range or taken by another type is
a failure. -/
def Inferred.assign (inferred : Inferred) (index : Nat) (type : ClosedType) : Option Inferred :=
  match inferred[index]? with
  | none => none
  | some none => some (inferred.set index (some type))
  | some (some present) => if present == type then some inferred else none

mutual

/-- Compares a signature with a type. -/
def matchSignature : Signature → ClosedType → Inferred → Option Inferred
  | .methodParameter index, type, inferred => inferred.assign index type
  | .array element rank, .array actual actualRank, inferred =>
    if actualRank = rank then matchSignature element actual inferred else some inferred
  | .named _ _ signatures, type, inferred => matchSignatures signatures type.args inferred
  | .array .., .named .., inferred => some inferred
  | .typeParameter _, _, inferred => some inferred

def matchSignatures : List Signature → List ClosedType → Inferred → Option Inferred
  | signature :: signatures, type :: types, inferred => do
    matchSignatures signatures types (← matchSignature signature type inferred)
  | _, _, inferred => some inferred

end

/-- Compares the parameters with the arguments that have a type. -/
def matchParameters : List Parameter → List Term → Inferred → Option Inferred
  | p :: params, arg :: args, inferred => do
    let inferred ← match arg.type? with
      | some type => matchSignature p.signature type inferred
      | none => some inferred
    matchParameters params args inferred
  | _, _, inferred => some inferred

/-- All type arguments of a method, if every one can be inferred. -/
def inferTypeArgs (m : Method) (args : List Term) : Option (List ClosedType) := do
  let inferred ← matchParameters m.params args (m.genericParams.map fun _ => none)
  inferred.mapM id

end DebugExpr.Bound
