import DebugExpr.Pseudo.Binding
import DebugExpr.Source.Expr

/-! Bound expressions: names are resolved to variables and members, conversions are explicit, and
every term has a type but for the null literal and calls that return nothing. -/
namespace DebugExpr.Bound
open Metadata Source

/-- A constant other than the null literal. An unsigned value is held by its bit pattern. -/
inductive Constant where
  | bool (value : Bool)
  | int32 (value : Int32)
  | int64 (value : Int64)
  | string (value : String)
  deriving DecidableEq, Repr

/-- How a value becomes one of another type. -/
inductive Conversion where
  /-- The null literal as a reference. -/
  | nullLiteral
  /-- A reference to a base class. -/
  | implicitReference
  /-- A value type to a reference type. -/
  | boxing
  /-- A reference to a value type. -/
  | unboxing
  /-- A reference to a derived class or an interface. -/
  | explicitReference
  /-- Between numeric types. -/
  | numeric (target : Primitive)
  deriving DecidableEq, Repr

/-- A field or property as bound code names it. -/
structure MemberRef where
  declaring : ClosedType
  name : String
  type : ClosedType
  isStatic : Bool

/-- A field in a listing, as in `int S.F`. -/
def MemberRef.displayField (m : MemberRef) : String :=
  s!"{m.type.display} {m.declaring.display}.{m.name}"

/-- The getter of a property in a listing, as in `bool int?.HasValue.get`. -/
def MemberRef.displayGetter (m : MemberRef) : String :=
  m.displayField ++ ".get"

/-- A method with its type arguments as bound code names it. -/
structure MethodRef where
  declaring : ClosedType
  name : String
  isStatic : Bool
  genericArgs : List ClosedType
  /-- The types of the parameters, and whether each is passed by reference. -/
  params : List (ClosedType × Bool)
  /-- Absent for a method that returns nothing. -/
  returns : Option ClosedType

namespace MethodRef

/-- The values that a call takes from the stack, receiver included. Counts end at sixteen bits. -/
def popCount (m : MethodRef) : Nat :=
  min (m.params.length + if m.isStatic then 0 else 1) 0xFFFF

def display (m : MethodRef) : String :=
  let returned := (m.returns.map ClosedType.display).getD "void"
  let generic :=
    if m.genericArgs.isEmpty then ""
    else "<" ++ ", ".intercalate (m.genericArgs.map ClosedType.display) ++ ">"
  let params := m.params.map fun (type, byRef) => (if byRef then "ref " else "") ++ type.display
  s!"{returned} {m.declaring.display}.{m.name}{generic}" ++ "(" ++ ", ".intercalate params ++ ")"

end MethodRef

inductive Term where
  | null
  | constant (value : Constant) (type : ClosedType)
  | localVar (index : Nat) (type : ClosedType)
  /-- An argument, by its index with `this` counted; one passed by reference holds an address. -/
  | parameter (index : Nat) (byRef : Bool) (type : ClosedType)
  | this (type : ClosedType)
  | pseudo (occurrence : Pseudo.Occurrence)
  /-- A field, of the receiver unless it is static. -/
  | field (receiver : Option Term) (field : MemberRef)
  | property (receiver : Option Term) (property : MemberRef)
  /-- A call with its arguments, each by reference or by value. -/
  | call (receiver : Option Term) (method : MethodRef) (args : List (Bool × Term))
  | element (array : Term) (indices : List Term) (type : ClosedType)
  | conversion (kind : Conversion) (operand : Term) (type : ClosedType)
  | negate (operand : Term)
  /-- Arithmetic on two operands of the same type. -/
  | binary (op : BinaryOp) (left right : Term) (type : ClosedType)
  /-- The left term unless it is null, else the right one. -/
  | coalesce (left right : Term) (type : ClosedType)
  | assign (target value : Term) (type : ClosedType)
  | compound (op : BinaryOp) (target value : Term) (type : ClosedType)

namespace Term

/-- The static type. There is none for the null literal and for a call that returns nothing. -/
def type? : Term → Option ClosedType
  | null => none
  | constant _ type | localVar _ type | parameter _ _ type | this type => some type
  | pseudo occurrence => some occurrence.type
  | field _ f => some f.type
  | property _ p => some p.type
  | call _ m _ => m.returns
  | element _ _ type | conversion _ _ type => some type
  | negate operand => operand.type?
  | binary _ _ _ type | coalesce _ _ type | assign _ _ type | compound _ _ _ type => some type

/-- How diagnostics name the type of a term. -/
def typeName (t : Term) : String :=
  (t.type?.map ClosedType.display).getD "<null>"

/-- The term denotes storage that may be written. A field of a value does so only if the value
itself may be written. -/
def isAssignable : Term → Bool
  | localVar .. | parameter .. | element .. => true
  | pseudo occurrence => occurrence.assignable
  | field none _ => true
  | field (some receiver) _ =>
    if receiver.type?.any ClosedType.isValueType then receiver.isAssignable else true
  | _ => false

/-- The term denotes storage whose address can be taken. -/
def isAddressable : Term → Bool
  | pseudo occurrence => occurrence.hasStorage
  | t => t.isAssignable

def isNull : Term → Bool
  | null => true
  | _ => false

/-- Evaluation leaves a value on the stack. -/
def hasValue (t : Term) : Bool :=
  t.type?.isSome || t.isNull

end Term

end DebugExpr.Bound
