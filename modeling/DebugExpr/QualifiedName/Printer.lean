import DebugExpr.QualifiedName.Basic

/-! The written form of type names, `Ns.Outer+Inner[Arg][,], Assembly`. Characters with a meaning of
their own are escaped by a backslash inside names, and a generic argument with an assembly stands in
brackets. A module origin is not written. -/
namespace DebugExpr.QualifiedName
open Text Metadata

/-- The characters that end a name unless they are escaped. -/
def isMeta (c : Char) : Bool :=
  c == ',' || c == '+' || c == '[' || c == ']' || c == '*' || c == '&' || c == '\\' || c == '\x60'

/-- Puts a backslash before each character with a meaning of its own. -/
def escape : List Char → List Char
  | [] => []
  | c :: rest => if isMeta c then '\\' :: c :: escape rest else c :: escape rest

def Segment.written (s : Segment) : String :=
  let name := String.ofList (escape s.name.toList)
  if s.arity = 0 then name else s!"{name}\x60{s.arity}"

def Suffix.written : Suffix → String
  | .array rank => rankBrackets rank
  | .pointer => "*"
  | .byRef => "&"

/-- The name with its assembly, if it states one. -/
def Origin.qualify (origin : Origin) (name : String) : String :=
  match origin with
  | .assembly reference => s!"{name}, {reference.display}"
  | _ => name

/-- An argument with an assembly stands in brackets; another origin is not written. -/
def Origin.qualifyArg (origin : Origin) (name : String) : String :=
  match origin with
  | .assembly reference => s!"[{name}, {reference.display}]"
  | _ => name

mutual

/-- The name without its assembly. -/
def written : QualifiedName → String
  | ⟨path, args, suffixes, _⟩ =>
    "+".intercalate (path.map Segment.written) ++
      (if args.isEmpty then "" else "[" ++ ",".intercalate (writtenArgs args) ++ "]") ++
      String.join (suffixes.map Suffix.written)

def writtenArgs : List QualifiedName → List String
  | [] => []
  | ⟨path, args, suffixes, origin⟩ :: rest =>
    origin.qualifyArg (written ⟨path, args, suffixes, origin⟩) :: writtenArgs rest

end

def display (t : QualifiedName) : String :=
  t.origin.qualify t.written

end DebugExpr.QualifiedName
