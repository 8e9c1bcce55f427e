import DebugExpr.Bound.Member
import DebugExpr.Bound.Overload

/-! Binding of expressions. A simple name is looked for among the locals, the parameters and the
members of the containing type, and only then among the names that the debugger supplies. Qualified
names never reach those. A name that nothing answers to may still be the beginning of a type's name
before a dot. -/
namespace DebugExpr.Bound
open Metadata Source

/-- What stands before a dot. -/
inductive Receiver where
  | value (term : Term)
  | type (type : ClosedType)

/-- The names of a dotted path without type arguments. -/
def pathNames? : Expr → Option (List String)
  | .name _ name [] => some [name]
  | .member _ target name [] => (pathNames? target).map (· ++ [name])
  | _ => none

namespace Scope

def this (s : Scope) : Term :=
  .this s.frame.containing

/-- The receiver of a member in the frame: nothing for a static member, else `this`. An instance
member is out of reach in a static method. -/
def ownReceiver? (s : Scope) (isStatic : Bool) : Option (Option Term) :=
  if isStatic then some none
  else if s.frame.isStatic then none
  else some (some s.this)

/-- A field or property of the containing type. -/
def ownMember? (s : Scope) : Option Member → Option Term
  | some (.field f) => (s.ownReceiver? f.isStatic).map (.field · f)
  | some (.property p) => (s.ownReceiver? p.isStatic).map (.property · p)
  | _ => none

/-- Binds a simple name; nothing is answered for one that is not known. -/
def simpleNameTerm? (s : Scope) (name : String) : Except Error (Option Term) :=
  match s.frame.local? name with
  | some (index, slot) => .ok (some (.localVar index slot.type))
  | none =>
    match s.frame.parameter? name with
    | some (index, slot) => .ok (some (.parameter index slot.byRef slot.type))
    | none => do
      let found ← s.findMember s.frame.containing name false
      match s.ownMember? found with
      | some term => return some term
      | none => return (← Pseudo.bind s.resolver s.context name).map .pseudo

/-- Binds a simple name that may not have type arguments. -/
def nameTerm (s : Scope) (name : String) (typeArgs : List TypeExpr) : Except Error Term := do
  match ← s.simpleNameTerm? name with
  | none => throw (.undefinedName name)
  | some term =>
    if !typeArgs.isEmpty then throw (.typeArgumentsNotAllowed name)
    return term

/-- The type of an integer literal: the first of `int`, `uint`, `long` and `ulong` that holds it. -/
def literalType (value : Nat) : Primitive :=
  if inRange .int32 value then .int32
  else if inRange .uint32 value then .uint32
  else if inRange .int64 value then .int64
  else .uint64

def literalTerm (s : Scope) : Literal → Except Error Term
  | .null => .ok .null
  | .bool value => do return .constant (.bool value) (← s.snapshot.primitive .boolean)
  | .string value => do return .constant (.string value) (← s.snapshot.primitive .string)
  | .integer value => s.integerTerm value.toNat (literalType value.toNat)

def thisTerm (s : Scope) (position : Nat) : Except Error Term :=
  if s.frame.isStatic then
    .error (.badSyntax position "Keyword 'this' is not valid in a static method")
  else .ok s.this

/-- Takes what stands before a dot for a type if it is an unknown name and a path to one. -/
def receiver (s : Scope) (expr : Expr) : Except Error Term → Except Error Receiver
  | .ok term => .ok (.value term)
  | .error (.undefinedName name) =>
    match (pathNames? expr).map fun path =>
      s.resolveType (.named false (path.map fun part => (part, []))) with
    | some (.ok type) => .ok (.type type)
    | _ => .error (.undefinedName name)
  | .error e => .error e

/-- The term before the dot, if it is one, and the type in which the name behind is looked for. -/
def receiverType (name : String) : Receiver → Except Error (Option Term × ClosedType)
  | .type type => .ok (none, type)
  | .value term =>
    match term.type? with
    | some type => .ok (some term, type)
    | none => .error (.memberNotFound term.typeName name)

/-- The receiver that a member keeps: a static one drops it, an instance one needs it. -/
def keepReceiver (receiver : Option Term) (isStatic : Bool) : Option (Option Term) :=
  if isStatic then some none else receiver.map some

/-- Binds a field or property behind a dot. -/
def memberTerm (s : Scope) (receiver : Receiver) (name : String) (typeArgs : List TypeExpr) :
    Except Error Term := do
  let (value, type) ← receiverType name receiver
  let notFound : Error := .memberNotFound type.display name
  let term ← match ← s.findMember type name false with
    | some (.field f) =>
      match keepReceiver value f.isStatic with
      | some kept => pure (.field kept f)
      | none => throw notFound
    | some (.property p) =>
      match keepReceiver value p.isStatic with
      | some kept => pure (.property kept p)
      | none => throw notFound
    | some (.methods ..) =>
      throw (.noConversion s!"method group '{name}'" Primitive.object.display)
    | none => throw notFound
  if !typeArgs.isEmpty then throw (.typeArgumentsNotAllowed name)
  return term

/-- The methods that a simple name calls. A local or a parameter of the name hides them, and any
other meaning of the name is bound first and then refused. -/
def ownMethods (s : Scope) (name : String) (typeArgs : List TypeExpr) :
    Except Error (ClosedType × List Method × Option Term) := do
  let hidden := (s.frame.local? name).isSome || (s.frame.parameter? name).isSome
  let refused : Except Error (ClosedType × List Method × Option Term) := do
    let _ ← s.nameTerm name typeArgs
    throw .methodNameExpected
  match ← s.findMember s.frame.containing name true with
  | some (.methods declaring methods) =>
    if hidden then refused
    else return (declaring, methods, if s.frame.isStatic then none else some s.this)
  | _ => refused

/-- The methods that a name behind a dot calls. -/
def memberMethods (s : Scope) (receiver : Receiver) (name : String) :
    Except Error (ClosedType × List Method × Option Term) := do
  let (value, type) ← receiverType name receiver
  match ← s.findMember type name true with
  | some (.methods declaring methods) => return (declaring, methods, value)
  | some _ => throw .methodNameExpected
  | none => throw (.memberNotFound type.display name)

/-- An argument by reference has to be a variable. -/
def checkArgument (passing : Passing) (term : Term) : Except Error (Bool × Term) :=
  let byRef := passing != .value
  if byRef && !term.isAssignable then .error (.notAssignable .refArgument) else .ok (byRef, term)

/-- Negates an integer literal into a constant of `int` or `long`. -/
def negatedLiteral (s : Scope) (value : Nat) : Except Error Term :=
  if inRange .int32 (-value) then s.integerTerm (-value) .int32
  else if inRange .int64 (-value) then s.integerTerm (-value) .int64
  else .error (.operatorNotApplicable "-" Primitive.uint64.display "")

/-- Negates an operand of a signed type. -/
def negate (s : Scope) (operand : Term) : Except Error Term := do
  let operand ← s.promote operand
  if (operand.type?.bind numeric?).any (!·.isUnsigned) then return .negate operand
  else throw (.operatorNotApplicable "-" operand.typeName "")

/-- Arithmetic on two operands, of which one may have to be converted to the type of the other. -/
def arithmetic (s : Scope) (op : BinaryOp) (left right : Term) : Except Error Term := do
  let refused : Error := .operatorNotApplicable op.display left.typeName right.typeName
  match left.type?, right.type? with
  | some leftType, some rightType =>
    if (numeric? leftType).isNone || (numeric? rightType).isNone then throw refused
    if leftType == rightType then return .binary op left right leftType
    if let some left ← s.convert? left rightType false then
      return .binary op left right rightType
    if let some right ← s.convert? right leftType false then
      return .binary op left right leftType
    throw refused
  | _, _ => throw refused

/-- The left reference unless it is null. One side has to convert to the type of the other, the
right one first. -/
def coalesceTerm (s : Scope) (left right : Term) : Except Error Term := do
  let refused : Error := .operatorNotApplicable "??" left.typeName right.typeName
  match left.type?.filter ClosedType.isReferenceType with
  | none => throw refused
  | some leftType =>
    if let some right ← s.convert? right leftType false then
      return .coalesce left right leftType
    match right.type? with
    | none => throw refused
    | some rightType =>
      match ← s.convertible (some leftType) rightType false with
      | .no => throw refused
      | _ => return .coalesce (← s.convert left rightType false) right rightType

/-- The target of an assignment has to be a variable. -/
def checkTarget (term : Term) : Except Error Term :=
  if term.isAssignable then .ok term else .error (.notAssignable .target)

/-- Assigns a value, which is converted to the type of the target. -/
def assign (s : Scope) (target : Term) (op : Option BinaryOp) (value : Term) : Except Error Term :=
  match target.type? with
  | none => .error (.malformed .untypedTarget)
  | some type =>
    match op with
    | none => do return .assign target (← s.convert value type false) type
    | some op => do
      if (numeric? type).isNone then
        throw (.operatorNotApplicable (op.display ++ "=") type.display value.typeName)
      return .compound op target (← s.convert value type false) type

/-- The element type of an array with as many dimensions as there are indices. -/
def elementType (array : Term) (indices : Nat) : Except Error ClosedType :=
  match array.type? with
  | some (.array element rank) =>
    if indices = rank then .ok element else .error (.argumentMismatch (element.display ++ "[]"))
  | _ => .error (.operatorNotApplicable "[]" array.typeName "")

mutual

/-- Binds an expression, and reports the first error in order of evaluation. -/
def bind (s : Scope) : Expr → Except Error Term
  | .name _ name typeArgs => s.nameTerm name typeArgs
  | .global _ name => .error (.undefinedGlobalName name)
  | .literal _ value => s.literalTerm value
  | .this position => s.thisTerm position
  | .member _ target name typeArgs => do
    let receiver ← s.receiver target (bind s target)
    s.memberTerm receiver name typeArgs
  | .invoke _ (.name _ name typeArgs) args => do
    let (declaring, methods, receiver) ← s.ownMethods name typeArgs
    let typeArgs ← s.resolveTypes typeArgs
    let args ← argumentTerms s args
    s.callOf name ⟨declaring, receiver, typeArgs, args⟩ methods
  | .invoke _ (.member _ target name typeArgs) args => do
    let receiver ← s.receiver target (bind s target)
    let (declaring, methods, receiver) ← s.memberMethods receiver name
    let typeArgs ← s.resolveTypes typeArgs
    let args ← argumentTerms s args
    s.callOf name ⟨declaring, receiver, typeArgs, args⟩ methods
  | .invoke _ target _ => do
    let _ ← bind s target
    throw .methodNameExpected
  | .index _ target indices => do
    let array ← bind s target
    let element ← elementType array indices.length
    let int ← s.snapshot.primitive .int32
    return .element array (← indexTerms s int indices) element
  | .cast _ type operand => do
    let type ← s.resolveType type
    let operand ← bind s operand
    s.convert operand type true
  | .negate _ (.literal _ (.integer value)) => s.negatedLiteral value.toNat
  | .negate _ operand => do
    let operand ← bind s operand
    s.negate operand
  | .binary _ op left right => do
    let left ← s.promote (← bind s left)
    let right ← s.promote (← bind s right)
    s.arithmetic op left right
  | .coalesce _ left right => do
    let left ← bind s left
    let right ← bind s right
    s.coalesceTerm left right
  | .assign _ target op value => do
    if !s.allowsSideEffects then throw .sideEffectsNotAllowed
    let target ← checkTarget (← bind s target)
    let value ← bind s value
    s.assign target op value

/-- Binds the arguments of a call in order. -/
def argumentTerms (s : Scope) : List (Passing × Expr) → Except Error (List (Bool × Term))
  | [] => .ok []
  | (passing, expr) :: rest => do
    let term ← bind s expr
    let arg ← checkArgument passing term
    return arg :: (← argumentTerms s rest)

/-- Binds the indices of an array element, each converted to the type given. -/
def indexTerms (s : Scope) (type : ClosedType) : List Expr → Except Error (List Term)
  | [] => .ok []
  | expr :: rest => do
    let index ← bind s expr
    let index ← s.convert index type false
    return index :: (← indexTerms s type rest)

end

/-- Binds an expression that has to be a variable. -/
def targetTerm (s : Scope) (expr : Expr) : Except Error Term := do
  checkTarget (← s.bind expr)

end Scope

end DebugExpr.Bound
