import DebugExpr.Pseudo.Accessor
import DebugExpr.Pseudo.Context
import DebugExpr.QualifiedName.Resolution

/-! Binding of names to accessor calls. A name that spells a pseudo-variable is read through the
accessor of its kind, any other one may be a variable declared in the debugger, which is reached
through its address and can be assigned to. -/
namespace DebugExpr.Pseudo
open Metadata QualifiedName

/-- What a bound name denotes. -/
inductive Source where
  | pseudo (kind : Kind)
  | declared (name : String)
  deriving DecidableEq, Repr

/-- One bound occurrence of a name. -/
structure Occurrence where
  /-- The name as written. -/
  lexeme : String
  source : Source
  type : ClosedType
  call : Call
  /-- What the accessor returns, or what the reference that it returns points to. -/
  accessorType : ClosedType

namespace Occurrence

/-- Only declared variables can be assigned to. -/
def assignable (o : Occurrence) : Bool :=
  match o.source with
  | .pseudo _ => false
  | .declared _ => true

/-- Reads go through an address. -/
def hasStorage (o : Occurrence) : Bool :=
  o.call.yieldsAddress

/-- A read narrows what the accessor returns. -/
def needsUnboxing (o : Occurrence) : Bool :=
  !o.hasStorage && o.type != o.accessorType

end Occurrence

/-- The type behind a handle. An open generic definition has no arguments to be applied to. -/
def handleType (s : Snapshot) (home : ModuleId) (token : Token) : Except Error ClosedType :=
  match (s.get? home).bind fun m => (m.typeAt? token).map fun d => (m.id, d) with
  | none => .error (.unsupportedType s!"{token.display} in {home.display}")
  | some (home, d) =>
    if d.genericParams.isEmpty then .ok (.named home d [])
    else .error (.unsupportedType d.fullName)

/-- The type that an entry describes. Names are read and resolved to the resolver's depth. -/
def entryType (r : Resolver) : Entry → Except Error ClosedType
  | .handle home token => handleType r.snapshot home token
  | .reference name => r.resolveType name
  | .qualifiedName text =>
    match QualifiedName.parse text r.maxDepth with
    | .ok name => r.resolveType name
    | .error e => .error (.malformedTypeName e)

/-- A type of the core library that an accessor returns. -/
def returnedType (s : Snapshot) (fullName : String) : Except Error ClosedType :=
  (s.coreType fullName []).mapError fun _ => .unsupportedType fullName

/-- A pseudo-variable of the type that the context states or else of the type that its accessor
returns. -/
def bindKind (r : Resolver) (context : Context) (lexeme : String) (kind : Kind)
    (returned : String) : Except Error (Option Occurrence) := do
  let accessorType ← returnedType r.snapshot returned
  let type ← match context.lookup? kind with
    | some entry => entryType r entry
    | none => pure accessorType
  return (Call.ofKind? kind).map fun call =>
    { lexeme, source := .pseudo kind, type, call, accessorType }

/-- A variable declared in the debugger. -/
def bindDeclared (r : Resolver) (context : Context) (lexeme : String) :
    Except Error (Option Occurrence) :=
  match context.declared? lexeme with
  | none => .ok none
  | some entry => do
    let type ← entryType r entry
    return some
      { lexeme, source := .declared lexeme, type, accessorType := type
        call := .variableAddress lexeme type }

/-- The kind is recognized: an address always, any other object if the context knows it. -/
def isRecognized (context : Context) (kind : Kind) : Bool :=
  match kind with
  | .exception | .stowedException | .address _ => true
  | kind => (context.lookup? kind).isSome || context.knowsByDefault kind

/-- Binds a name; nothing is answered for one that neither rule recognizes. -/
def bind (r : Resolver) (context : Context) (lexeme : String) : Except Error (Option Occurrence) :=
  match Kind.ofLexeme lexeme with
  | .ordinary => bindDeclared r context lexeme
  | kind =>
    if isRecognized context kind then
      bindKind r context lexeme kind <| match kind with
        | .exception | .stowedException => exceptionName
        | _ => Primitive.object.fullName
    else .ok none

end DebugExpr.Pseudo
