import DebugExpr.Bound.Conversion
import DebugExpr.Bound.Inference

/-! The choice of a method among those of one name: the first, in order of declaration, that takes
the arguments. -/
namespace DebugExpr.Bound
open Metadata

/-- A call as written, after its parts are bound. -/
structure CallSite where
  declaring : ClosedType
  /-- Absent where the method is named through a type or in a static method. -/
  receiver : Option Term
  typeArgs : List ClosedType
  /-- The arguments, and whether each is passed by reference. -/
  args : List (Bool × Term)

namespace Scope

/-- The module in whose scope a type's signatures are written. -/
def homeOf (s : Scope) : ClosedType → ModuleId
  | .named home _ _ => home
  | .array .. => s.frame.home

/-- The type arguments of a call: those written, or else those inferred. -/
def methodArgs? (site : CallSite) (m : Method) : Option (List ClosedType) :=
  if !site.typeArgs.isEmpty then
    if site.typeArgs.length = m.genericParams.length then some site.typeArgs else none
  else if m.genericParams.isEmpty then some []
  else inferTypeArgs m (site.args.map (·.2))

/-- Fits one argument to a parameter. An argument by reference has to have the parameter's very
type, one by value has to convert to it. -/
def fitArgument (s : Scope) (byRef : Bool) (type : ClosedType) (arg : Bool × Term) :
    Except Error (Option Term) :=
  let (argByRef, term) := arg
  if byRef != argByRef then .ok none
  else if argByRef then .ok (if term.type? == some type then some term else none)
  else s.convert? term type false

/-- Fits the arguments to the parameters, one after the other. -/
def fitArguments (s : Scope) (declaring : ClosedType) (methodArgs : List ClosedType) :
    List Parameter → List (Bool × Term) →
      Except Error (Option (List ((ClosedType × Bool) × (Bool × Term))))
  | p :: params, arg :: args => do
    let type ← s.snapshot.bind (s.homeOf declaring) declaring.args methodArgs p.signature
    match ← s.fitArgument p.byRef type arg with
    | none => return none
    | some term =>
      match ← s.fitArguments declaring methodArgs params args with
      | none => return none
      | some rest => return some (((type, arg.1), (arg.1, term)) :: rest)
  | _, _ => .ok (some [])

/-- The call of a method, if it takes the arguments. -/
def callOf? (s : Scope) (site : CallSite) (m : Method) : Except Error (Option Term) := do
  if m.params.length ≠ site.args.length ∨ (!m.isStatic ∧ site.receiver.isNone) then return none
  match methodArgs? site m with
  | none => return none
  | some methodArgs =>
    match ← s.fitArguments site.declaring methodArgs m.params site.args with
    | none => return none
    | some fitted =>
      let home := s.homeOf site.declaring
      let returns ← m.returns.mapM (s.snapshot.bind home site.declaring.args methodArgs)
      let method : MethodRef :=
        ⟨site.declaring, m.name, m.isStatic, methodArgs, fitted.map (·.1), returns⟩
      return some (.call (if m.isStatic then none else site.receiver) method (fitted.map (·.2)))

/-- The call of the first method that takes the arguments. -/
def callOf (s : Scope) (name : String) (site : CallSite) : List Method → Except Error Term
  | [] => .error (.argumentMismatch name)
  | m :: rest => do
    match ← s.callOf? site m with
    | some call => return call
    | none => s.callOf name site rest

end Scope

end DebugExpr.Bound
