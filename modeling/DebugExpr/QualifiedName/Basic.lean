import DebugExpr.Assembly.Identity
import DebugExpr.Metadata.Definition

/-! Type names: a path of nested names with generic arguments, array, pointer and reference
suffixes, and the place where the type is to be looked for. A type name is a tree that no loaded
module has been asked about yet. -/
namespace DebugExpr
open Text Metadata

namespace QualifiedName

/-- What follows a name, applied from left to right. -/
inductive Suffix where
  | array (rank : Nat)
  | pointer
  | byRef
  deriving DecidableEq, Repr, Inhabited

/-- Where the type is looked for. -/
inductive Origin where
  | assembly (reference : Assembly.Reference)
  | inModule (id : ModuleId)
  /-- In the context module, then in the core library. -/
  | unqualified
  deriving DecidableEq, Repr

/-- One name of the path, without escapes, and the generic parameters it declares. -/
structure Segment where
  name : String
  arity : Nat
  deriving DecidableEq, Repr, Inhabited

namespace Segment

def ofMetadataName (segment : String) : Segment :=
  let (name, arity) := cutArity segment
  ⟨name, arity⟩

/-- The name with its arity after a backtick; an arity of zero is not written. -/
def metadataName (s : Segment) : String :=
  if s.arity = 0 then s.name else s!"{s.name}\x60{s.arity}"

end Segment

/-- The arities of a path added up, as far as counts go. -/
def pathArity (path : List Segment) : Nat :=
  min (path.foldr (fun segment total => segment.arity + total) 0) maxCount

end QualifiedName

structure QualifiedName where
  /-- Nested names, outermost first. The first carries the namespace. -/
  path : List QualifiedName.Segment
  args : List QualifiedName
  suffixes : List QualifiedName.Suffix
  origin : QualifiedName.Origin
  deriving Repr

namespace QualifiedName

mutual

/-- Equality of type names, part by part. -/
def same : QualifiedName → QualifiedName → Bool
  | ⟨path, args, suffixes, origin⟩, ⟨path', args', suffixes', origin'⟩ =>
    path == path' && sameAll args args' && suffixes == suffixes' && origin == origin'

def sameAll : List QualifiedName → List QualifiedName → Bool
  | [], [] => true
  | a :: as, b :: bs => same a b && sameAll as bs
  | _, _ => false

end

instance : BEq QualifiedName := ⟨same⟩

/-- The unqualified reference to a definition by its metadata name. -/
def ofFullName (fullName : String) : QualifiedName where
  path := (fullName.toList.splitOn '+').map fun cs => .ofMetadataName (String.ofList cs)
  args := []
  suffixes := []
  origin := .unqualified

/-- The metadata name of the path. -/
def fullName (t : QualifiedName) : String :=
  "+".intercalate (t.path.map (·.metadataName))

/-- Namespace of the outermost name, empty for the global one. -/
def space (t : QualifiedName) : String :=
  match t.path with
  | [] => ""
  | outer :: _ =>
    match cutLast '.' outer.name.toList with
    | none => ""
    | some (space, _) => String.ofList space

def arity (t : QualifiedName) : Nat :=
  pathArity t.path

/-- Rank of the last suffix if that is an array, else zero. -/
def arrayRank (t : QualifiedName) : Nat :=
  match t.suffixes.getLast? with
  | some (.array rank) => rank
  | _ => 0

/-- A pointer or reference suffix occurs. -/
def isIndirect (t : QualifiedName) : Bool :=
  t.suffixes.any fun
    | .array _ => false
    | .pointer | .byRef => true

end QualifiedName

end DebugExpr
