import DebugExpr.Metadata.Signature

/-! Expressions as written. Each node holds the position at which it begins. -/
namespace DebugExpr.Source
open Metadata

inductive BinaryOp where
  | add
  | subtract
  | multiply
  | divide
  deriving DecidableEq, Repr

def BinaryOp.display : BinaryOp → String
  | add => "+"
  | subtract => "-"
  | multiply => "*"
  | divide => "/"

inductive Literal where
  | null
  | bool (value : Bool)
  /-- An integer, which gets its type by its size. -/
  | integer (value : UInt64)
  | string (value : String)
  deriving DecidableEq, Repr

/-- How an argument is passed. -/
inductive Passing where
  | value
  | ref
  | out
  deriving DecidableEq, Repr

/-- A type as written in an expression. -/
inductive TypeExpr where
  | keyword (type : Primitive)
  /-- A dotted name, with `global::` in front or without, each part with arguments of its own. -/
  | named (isGlobal : Bool) (segments : List (String × List TypeExpr))
  | nullable (inner : TypeExpr)
  | array (element : TypeExpr) (rank : Nat)
  deriving Repr

namespace TypeExpr

mutual

def display : TypeExpr → String
  | keyword type => type.display
  | named isGlobal segments =>
    (if isGlobal then "global::" else "") ++ ".".intercalate (displaySegments segments)
  | nullable inner => display inner ++ "?"
  | array element rank => display element ++ rankBrackets rank

def displaySegments : List (String × List TypeExpr) → List String
  | [] => []
  | (name, args) :: rest =>
    (name ++ if args.isEmpty then "" else "<" ++ ", ".intercalate (displayAll args) ++ ">") ::
      displaySegments rest

def displayAll : List TypeExpr → List String
  | [] => []
  | t :: rest => display t :: displayAll rest

end

/-- A dotted name without type arguments, which could as well be an expression. -/
def isPlainName : TypeExpr → Bool
  | named _ segments => segments.all (·.2.isEmpty)
  | _ => false

end TypeExpr

inductive Expr where
  | name (position : Nat) (name : String) (typeArgs : List TypeExpr)
  /-- A name in the global namespace. -/
  | global (position : Nat) (name : String)
  | literal (position : Nat) (value : Literal)
  | this (position : Nat)
  | member (position : Nat) (target : Expr) (name : String) (typeArgs : List TypeExpr)
  | invoke (position : Nat) (target : Expr) (args : List (Passing × Expr))
  | index (position : Nat) (target : Expr) (indices : List Expr)
  | cast (position : Nat) (type : TypeExpr) (operand : Expr)
  | negate (position : Nat) (operand : Expr)
  | binary (position : Nat) (op : BinaryOp) (left right : Expr)
  | coalesce (position : Nat) (left right : Expr)
  /-- An assignment, compound if it has an operator. -/
  | assign (position : Nat) (target : Expr) (op : Option BinaryOp) (value : Expr)
  deriving Repr

namespace Expr

def position : Expr → Nat
  | name p .. | global p .. | literal p .. | this p | member p .. | invoke p .. | index p ..
  | cast p .. | negate p .. | binary p .. | coalesce p .. | assign p .. => p

/-- The node itself writes a variable. -/
def isAssignment : Expr → Bool
  | assign .. => true
  | _ => false

end Expr

end DebugExpr.Source
