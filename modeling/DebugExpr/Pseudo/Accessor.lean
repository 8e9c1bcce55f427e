import DebugExpr.Metadata.ClosedType
import DebugExpr.Pseudo.Kind

/-! The accessors through which compiled code reads pseudo-variables and declared variables: a fixed
set of methods that the debugger serves from the suspended process. -/
namespace DebugExpr.Pseudo
open Metadata

/-- The type that declares the accessors. -/
def accessorType : String := "Microsoft.VisualStudio.Debugger.Clr.IntrinsicMethods"

def exceptionName : String := "System.Exception"

/-- What an accessor returns, before it is narrowed. -/
inductive Returned where
  | exception
  | object
  /-- A managed reference to the type argument. -/
  | reference
  deriving DecidableEq, Repr

inductive Accessor where
  | getException
  | getStowedException
  | getReturnValue
  | getObjectByAlias
  | getObjectAtAddress
  | getVariableAddress
  deriving DecidableEq, Repr

namespace Accessor

def all : List Accessor :=
  [getException, getStowedException, getReturnValue, getObjectByAlias, getObjectAtAddress,
    getVariableAddress]

/-- The accessor that reads a kind of pseudo-variable. -/
def ofKind? : Kind → Option Accessor
  | .exception => some getException
  | .stowedException => some getStowedException
  | .returnValue _ => some getReturnValue
  | .objectId _ => some getObjectByAlias
  | .address _ => some getObjectAtAddress
  | .ordinary => none

def name : Accessor → String
  | getException => "GetException"
  | getStowedException => "GetStowedException"
  | getReturnValue => "GetReturnValue"
  | getObjectByAlias => "GetObjectByAlias"
  | getObjectAtAddress => "GetObjectAtAddress"
  | getVariableAddress => "GetVariableAddress"

def ofName? (name : String) : Option Accessor :=
  all.find? (·.name == name)

def parameter? : Accessor → Option Primitive
  | getException | getStowedException => none
  | getReturnValue => some .int32
  | getObjectByAlias | getVariableAddress => some .string
  | getObjectAtAddress => some .uint64

def returns : Accessor → Returned
  | getException | getStowedException => .exception
  | getReturnValue | getObjectByAlias | getObjectAtAddress => .object
  | getVariableAddress => .reference

def isGeneric (a : Accessor) : Bool :=
  a == getVariableAddress

/-- The parameter list in a signature. -/
def parameterList (a : Accessor) : String :=
  "(" ++ (a.parameter?.map Primitive.display).getD "" ++ ")"

/-- The signature as declared. -/
def signature (a : Accessor) : String :=
  let returned := match a.returns with
    | .exception => exceptionName
    | .object => "object"
    | .reference => "ref T"
  let generic := if a.isGeneric then "<T>" else ""
  s!"{returned} {accessorType}.{a.name}{generic}{a.parameterList}"

end Accessor

/-- The constant pushed before an accessor is called. -/
inductive Argument where
  | none
  | int32 (value : Int32)
  | string (value : String)
  | uint64 (value : UInt64)
  deriving DecidableEq, Repr

/-- A call of an accessor, ready to be compiled. -/
structure Call where
  accessor : Accessor
  argument : Argument
  typeArgument : Option ClosedType

namespace Call

/-- The call that reads a pseudo-variable. There is none for a return value whose index does not fit
the parameter. -/
def ofKind? (kind : Kind) : Option Call := do
  let accessor ← Accessor.ofKind? kind
  let argument ← match kind with
    | .returnValue index =>
      if index < Kind.indexLimit then some (.int32 (Int32.ofNat index)) else none
    | .objectId digits => some (.string digits)
    | .address value => some (.uint64 value)
    | _ => some Argument.none
  return ⟨accessor, argument, none⟩

/-- The call that fetches the address of a variable declared in the debugger. -/
def variableAddress (name : String) (type : ClosedType) : Call :=
  ⟨.getVariableAddress, .string name, some type⟩

/-- The call yields a managed reference and not a value. -/
def yieldsAddress (call : Call) : Bool :=
  call.accessor.returns == .reference

/-- The signature with its type argument; a returned reference shows as the type itself. -/
def display (call : Call) : String :=
  let returned := match call.typeArgument, call.accessor.returns with
    | some type, .reference => type.display
    | _, .exception => exceptionName
    | _, _ => "object"
  let generic := (call.typeArgument.map fun type => s!"<{type.display}>").getD ""
  s!"{returned} {accessorType}.{call.accessor.name}{generic}{call.accessor.parameterList}"

end Call

end DebugExpr.Pseudo
