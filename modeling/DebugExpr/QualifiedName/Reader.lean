import DebugExpr.Parsing.Iterate
import DebugExpr.Text.Blank
import DebugExpr.QualifiedName.Error
import DebugExpr.QualifiedName.Printer

/-! Reading assembly-qualified type names.

qualified := spec [ ',' assembly ] spec := path [ '[' arg ( ',' arg )* ']' ] suffix* path := segment
( '+' segment )* segment := name [ backtick digits ] arg := '[' qualified ']' | spec suffix := '['
','* ']' | '[*]' | '*' | '&'

Blanks may stand before every part. Arguments are read only after a name with an arity, and they
have to be as many as the arities of the path add up to. -/
namespace DebugExpr.QualifiedName
open Text Parsing

/-- The largest arity of one name, which numbers generic parameters in sixteen bits. -/
def maxSegmentArity : Nat := 0xFFFF

def maxRank : Nat := 32

/-- The nesting allowed where no other limit is given. -/
def defaultMaxDepth : Nat := 64

/-- A whole input under reading: its length, from which positions are counted, and the limit on the
nesting of generic arguments. -/
structure Source where
  length : Nat
  maxDepth : Nat

namespace Source

/-- Position of the input that is left. -/
def position (src : Source) (rest : List Char) : Nat :=
  src.length - rest.length

/-- The error of finding something else than was expected. -/
def unexpected (src : Source) : List Char → Error
  | [] => .unexpectedEnd
  | c :: rest => .unexpectedCharacter c (src.position (c :: rest))

/-- Takes the expected character, with blanks before it. -/
def expect (src : Source) (c : Char) (input : List Char) : Except Error (List Char) :=
  match dropBlanks input with
  | [] => .error .unexpectedEnd
  | d :: rest => if d = c then .ok rest else .error (src.unexpected (d :: rest))

end Source

/-- Takes a name up to a blank or a character with a meaning of its own, and its escapes away. -/
def takeName : List Char → Except Error (List Char × List Char)
  | [] => .ok ([], [])
  | ['\\'] => .error .unexpectedEnd
  | '\\' :: c :: rest => do
    let (name, rest) ← takeName rest
    return (c :: name, rest)
  | c :: rest =>
    if isMeta c || isBlank c then .ok ([], c :: rest)
    else do
      let (name, rest) ← takeName rest
      return (c :: name, rest)

/-- Takes the arity after a name, which is zero if no backtick follows. -/
def takeArity (src : Source) : List Char → Except Error (Nat × List Char)
  | '\x60' :: rest =>
    match decimal? (rest.takeWhile Char.isDigit) with
    | some arity =>
      if 1 ≤ arity ∧ arity ≤ maxSegmentArity then .ok (arity, rest.dropWhile Char.isDigit)
      else .error (.badArity (src.position ('\x60' :: rest)))
    | none => .error (.badArity (src.position ('\x60' :: rest)))
  | rest => .ok (0, rest)

def takeSegment (src : Source) (input : List Char) : Except Error (Segment × List Char) := do
  let input := dropBlanks input
  let (name, rest) ← takeName input
  if name.isEmpty then
    throw (if rest.isEmpty then .unexpectedEnd else .emptyName (src.position input))
  let (arity, rest) ← takeArity src rest
  return (⟨String.ofList name, arity⟩, rest)

def takePath (src : Source) : List Char → Except Error (List Segment × List Char) :=
  separated (fun | '+' :: rest => some rest | _ => none) (takeSegment src)

/-- Takes the commas of an array suffix up to its closing bracket and counts the dimensions. -/
def takeRank (src : Source) (rank : Nat) : List Char → Except Error (Nat × List Char)
  | [] => .error .unexpectedEnd
  | c :: rest =>
    if isBlank c then takeRank src rank rest
    else if c = ',' then takeRank src (rank + 1) rest
    else if c = ']' then
      if rank ≤ maxRank then .ok (rank, rest) else .error (.badRank rank)
    else .error (src.unexpected (c :: rest))

/-- Takes an array suffix after its opening bracket. A star alone stands for one dimension. -/
def takeArray (src : Source) (input : List Char) : Except Error (Nat × List Char) :=
  match dropBlanks input with
  | '*' :: rest => do
    let rest ← src.expect ']' rest
    return (1, rest)
  | input => takeRank src 1 input

def takeSuffixes (src : Source) : List Char → Except Error (List Suffix × List Char) :=
  iterate
    (fun suffixes input =>
      match dropBlanks input with
      | '*' :: rest => .ok (some (suffixes ++ [.pointer], rest))
      | '&' :: rest => .ok (some (suffixes ++ [.byRef], rest))
      | '[' :: rest => do
        let (rank, rest) ← takeArray src rest
        return some (suffixes ++ [.array rank], rest)
      | _ => .ok none)
    []

/-- An opening bracket begins generic arguments unless an array suffix begins there. -/
def opensArguments : List Char → Bool
  | '[' :: rest =>
    match dropBlanks rest with
    | c :: _ => !(c == ']' || c == ',' || c == '*')
    | [] => true
  | _ => false

/-- Takes a comma and the assembly behind it, if there is one. The name of the assembly runs up to
the closing bracket inside an argument, and to the end of the input elsewhere. -/
def takeOrigin (inArgument : Bool) (input : List Char) : Except Error (Origin × List Char) :=
  match dropBlanks input with
  | ',' :: rest =>
    let (text, rest) := if inArgument then rest.span (· != ']') else (rest, [])
    match Assembly.Reference.parse (String.ofList (trim text)) with
    | .ok reference => .ok (.assembly reference, rest)
    | .error e => .error (.assembly e)
  | rest => .ok (.unqualified, rest)

/-- Takes one generic argument, given how to take a name without an assembly. -/
def takeArgument (src : Source) (spec : List Char → Except Error (QualifiedName × List Char))
    (input : List Char) : Except Error (QualifiedName × List Char) :=
  match dropBlanks input with
  | '[' :: rest => do
    let (name, rest) ← spec rest
    let (origin, rest) ← takeOrigin true rest
    let rest ← src.expect ']' rest
    return ({ name with origin }, rest)
  | input => spec input

/-- Takes the arguments after the opening bracket. -/
def takeArguments (src : Source) (spec : List Char → Except Error (QualifiedName × List Char))
    (input : List Char) : Except Error (List QualifiedName × List Char) := do
  let (args, rest) ← separated
    (fun input => match dropBlanks input with | ',' :: rest => some rest | _ => none)
    (takeArgument src spec) input
  let rest ← src.expect ']' rest
  return (args, rest)

/-- Takes a name without an assembly, with as many levels of arguments as are left. -/
def takeSpec (src : Source) : Nat → List Char → Except Error (QualifiedName × List Char)
  | 0, _ => .error (.tooDeep src.maxDepth)
  | levels + 1, input => do
    let (path, rest) ← takePath src input
    let rest := dropBlanks rest
    let (args, rest) ←
      if pathArity path > 0 && opensArguments rest then
        takeArguments src (takeSpec src levels) rest.tail
      else pure ([], rest)
    if args.length ≠ pathArity path then
      throw (.arityMismatch (pathArity path) args.length)
    let (suffixes, rest) ← takeSuffixes src rest
    return (⟨path, args, suffixes, .unqualified⟩, rest)

/-- Reads a whole assembly-qualified type name. -/
def parse (text : String) (maxDepth : Nat := defaultMaxDepth) : Except Error QualifiedName := do
  let src : Source := ⟨text.toList.length, maxDepth⟩
  let (name, rest) ← takeSpec src maxDepth text.toList
  let (origin, rest) ← takeOrigin false rest
  match dropBlanks rest with
  | [] => return { name with origin }
  | rest => throw (src.unexpected rest)

end DebugExpr.QualifiedName
