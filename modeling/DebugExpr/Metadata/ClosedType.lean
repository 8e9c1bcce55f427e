import DebugExpr.Metadata.Definition

/-! Resolved types: a definition of a loaded module with its generic arguments, or an array. Two
types are the same when module, token and arguments agree, whatever else their definitions hold. -/
namespace DebugExpr.Metadata

inductive ClosedType where
  | named (home : ModuleId) (definition : TypeDefinition) (args : List ClosedType)
  | array (element : ClosedType) (rank : Nat)
  deriving Repr, Inhabited

namespace ClosedType

mutual

/-- Equality of types: definitions are told apart by module and token alone. -/
def same : ClosedType → ClosedType → Bool
  | .named home d args, .named home' d' args' =>
    home == home' && d.token == d'.token && sameAll args args'
  | .array element rank, .array element' rank' => same element element' && rank == rank'
  | _, _ => false

def sameAll : List ClosedType → List ClosedType → Bool
  | [], [] => true
  | a :: as, b :: bs => same a b && sameAll as bs
  | _, _ => false

end

instance : BEq ClosedType := ⟨same⟩

def definition? : ClosedType → Option TypeDefinition
  | .named _ d _ => some d
  | .array .. => none

def args : ClosedType → List ClosedType
  | .named _ _ args => args
  | .array .. => []

def primitive? (t : ClosedType) : Option Primitive :=
  t.definition?.bind (·.primitive)

def isValueType (t : ClosedType) : Bool :=
  t.definition?.any (·.kind == .valueType)

/-- Values are references to objects. -/
def isReferenceType (t : ClosedType) : Bool :=
  !t.isValueType

def isNullable (t : ClosedType) : Bool :=
  t.definition?.any (·.isNullable)

def isObject (t : ClosedType) : Bool :=
  t.primitive? == some .object

def isInterface (t : ClosedType) : Bool :=
  t.definition?.any (·.kind == .interfaceType)

/-- The names of the segments joined by dots. Each takes as many of the arguments as its arity says
and shows them in angle brackets. -/
def displaySegments : List String → List String → List String
  | [], _ => []
  | segment :: rest, args =>
    let (name, arity) := cutArity segment
    let own := args.take arity
    let shown := if own.isEmpty then name else name ++ "<" ++ ", ".intercalate own ++ ">"
    shown :: displaySegments rest (args.drop arity)

/-- The display of a named type with its arguments already displayed. A built-in type shows its
keyword, an optional value type a question mark. -/
def displayNamed (d : TypeDefinition) (args : List String) : String :=
  match d.primitive with
  | some p => p.display
  | none =>
    match d.isNullable, args with
    | true, [arg] => arg ++ "?"
    | _, _ =>
      (if d.space.isEmpty then "" else d.space ++ ".") ++
        ".".intercalate (displaySegments d.segments args)

mutual

/-- The spelling in the language. Of an array of arrays the outermost rank stands first. -/
def display : ClosedType → String
  | .named _ d args => displayNamed d (displayAll args)
  | .array element rank => displayArray element (rankBrackets rank)

/-- The display of an array with the given element, behind whose innermost element the brackets of
the outer ranks stand. -/
def displayArray : ClosedType → String → String
  | .named _ d args, brackets => displayNamed d (displayAll args) ++ brackets
  | .array element rank, brackets => displayArray element (brackets ++ rankBrackets rank)

def displayAll : List ClosedType → List String
  | [] => []
  | t :: rest => display t :: displayAll rest

end

/-- The metadata name of a definition; an array has only its display. -/
def metadataName (t : ClosedType) : String :=
  match t.definition? with
  | some d => d.fullName
  | none => t.display

end ClosedType

end DebugExpr.Metadata
