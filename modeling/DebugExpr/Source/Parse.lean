import DebugExpr.Parsing.Iterate
import DebugExpr.Source.Expr
import DebugExpr.Source.Scan

/-! From tokens to expressions. From loosest to tightest: assignment and `??`, which group to the
right, addition, multiplication, sign and cast, and what follows a primary expression. Assignments,
right sides of `??`, signs, casts and types count against a limit on nesting; the parsers below take
the number of levels that are left and recurse on it.

A type in parentheses is a cast if it could be no expression, or if an operand follows that could
not continue one. Any error inside such a type means that there is no cast. -/
namespace DebugExpr.Source
open Metadata Parsing

/-- What a parser reads from the tokens in front of it. -/
abbrev Parser (α : Type) := List Token → Except Error (α × List Token)

/-- The surroundings of a parser: where the input ends, and the limit on nesting. -/
structure Bounds where
  stop : Nat
  maxDepth : Nat

namespace Bounds

/-- Position of the next token. -/
def position (b : Bounds) : List Token → Nat
  | [] => b.stop
  | token :: _ => token.position

def fail {α : Type} (b : Bounds) (ts : List Token) (message : String) : Except Error α :=
  .error (.badSyntax (b.position ts) message)

/-- The error of nesting deeper than the limit. -/
def tooDeep {α : Type} (b : Bounds) : Except Error α :=
  .error (.recursionLimit b.maxDepth)

end Bounds

/-- Takes the mark if it comes next. -/
def takeMark? (mark : Mark) : List Token → Option (List Token)
  | token :: rest => if token.kind = .mark mark then some rest else none
  | [] => none

def expectMark (b : Bounds) (mark : Mark) (ts : List Token) : Except Error (List Token) :=
  match takeMark? mark ts with
  | some rest => .ok rest
  | none => b.fail ts s!"'{mark.display}' expected, found '{displayFirst ts}'"

def readName (b : Bounds) : Parser String
  | ⟨.identifier name, _⟩ :: rest => .ok (name, rest)
  | ts => b.fail ts "identifier expected"

/-- Reads type arguments in angle brackets, if there are any, given how to read a type. -/
def readTypeArgs (b : Bounds) (type : Parser TypeExpr) : Parser (List TypeExpr) := fun ts =>
  match takeMark? .less ts with
  | none => .ok ([], ts)
  | some ts => do
    let (args, ts) ← separated (takeMark? .comma) type ts
    let ts ← expectMark b .greater ts
    return (args, ts)

/-- A dot continues a dotted name only before a further name. -/
def takeNameDot? : List Token → Option (List Token)
  | ⟨.mark .dot, _⟩ :: ⟨.identifier name, position⟩ :: rest =>
    some (⟨.identifier name, position⟩ :: rest)
  | _ => none

def readTypeSegment (b : Bounds) (type : Parser TypeExpr) : Parser (String × List TypeExpr) :=
  fun ts => do
    let (name, ts) ← readName b ts
    let (args, ts) ← readTypeArgs b type ts
    return ((name, args), ts)

def readDottedType (b : Bounds) (type : Parser TypeExpr) (isGlobal : Bool) : Parser TypeExpr :=
  fun ts => do
    let (segments, ts) ← separated takeNameDot? (readTypeSegment b type) ts
    return (.named isGlobal segments, ts)

/-- Reads a type without the marks behind it. -/
def readTypeHead (b : Bounds) (type : Parser TypeExpr) : Parser TypeExpr
  | ⟨.typeKeyword p, _⟩ :: ts => .ok (.keyword p, ts)
  | ⟨.global, _⟩ :: ts => do
    let ts ← expectMark b .doubleColon ts
    readDottedType b type true ts
  | ts =>
    match ts with
    | ⟨.identifier name, _⟩ :: _ =>
      if name.toList.head? = some '$' then b.fail ts s!"type expected, found '{displayFirst ts}'"
      else readDottedType b type false ts
    | _ => b.fail ts s!"type expected, found '{displayFirst ts}'"

/-- An opening bracket makes an array type only before a comma or a closing bracket. -/
def takeArrayBracket? : List Token → Option (List Token)
  | ⟨.mark .openBracket, _⟩ :: rest =>
    match rest with
    | ⟨.mark .comma, _⟩ :: _ | ⟨.mark .closeBracket, _⟩ :: _ => some rest
    | _ => none
  | _ => none

def isComma (token : Token) : Bool :=
  token.kind == .mark .comma

/-- Reads the brackets of arrays behind a type. -/
def readRanks (b : Bounds) : TypeExpr → Parser TypeExpr :=
  iterate fun type ts =>
    match takeArrayBracket? ts with
    | none => .ok none
    | some ts => do
      let commas := ts.takeWhile isComma
      let ts ← expectMark b .closeBracket (ts.dropWhile isComma)
      return some (.array type (commas.length + 1), ts)

def readTypeBody (b : Bounds) (type : Parser TypeExpr) : Parser TypeExpr := fun ts => do
  let (head, ts) ← readTypeHead b type ts
  match takeMark? .question ts with
  | some ts => readRanks b (.nullable head) ts
  | none => readRanks b head ts

/-- Reads a type with as many levels as are left. -/
def readTypeExpr (b : Bounds) : Nat → Parser TypeExpr
  | 0 => fun _ => b.tooDeep
  | levels + 1 => readTypeBody b (readTypeExpr b levels)

def additive? : TokenKind → Option BinaryOp
  | .mark .plus => some .add
  | .mark .minus => some .subtract
  | _ => none

def multiplicative? : TokenKind → Option BinaryOp
  | .mark .star => some .multiply
  | .mark .slash => some .divide
  | _ => none

/-- Reads operands with operators of one tier between them, grouped to the left. -/
def readChain (operator? : TokenKind → Option BinaryOp) (operand : Parser Expr) : Parser Expr :=
  fun ts => do
    let (first, ts) ← operand ts
    iterate
      (fun left ts =>
        match ts with
        | [] => .ok none
        | token :: ts =>
          match operator? token.kind with
          | none => .ok none
          | some op => do
            let (right, ts) ← operand ts
            return some (.binary left.position op left right, ts))
      first ts

/-- Reads sums of products, given how to read an operand. -/
def readSum (operand : Parser Expr) : Parser Expr :=
  readChain additive? (readChain multiplicative? operand)

/-- The token can begin an operand and cannot continue an expression. -/
def startsOperand : List Token → Bool
  | [] => false
  | token :: _ =>
    match token.kind with
    | .identifier _ | .address _ | .integer _ | .string _ | .global | .typeKeyword _ => true
    | .keyword word => word != .ref && word != .out
    | .mark mark => mark == .openParen

/-- Reads the type of a cast in parentheses, if there is a cast. -/
def readCastType? (type : Parser TypeExpr) (ts : List Token) : Option (TypeExpr × List Token) := do
  let ts ← takeMark? .openParen ts
  let (castType, ts) ← (type ts).toOption
  let ts ← takeMark? .closeParen ts
  if castType.isPlainName && !startsOperand ts then none else some (castType, ts)

/-- Reads one argument with the word that says how it is passed. -/
def readArgument (expr : Parser Expr) : Parser (Passing × Expr) := fun ts =>
  let (passing, ts) := match ts with
    | ⟨.keyword .ref, _⟩ :: ts => (Passing.ref, ts)
    | ⟨.keyword .out, _⟩ :: ts => (Passing.out, ts)
    | ts => (Passing.value, ts)
  do
    let (value, ts) ← expr ts
    return ((passing, value), ts)

/-- Reads the arguments of a call after the opening parenthesis. -/
def readArgumentList (b : Bounds) (expr : Parser Expr) : Parser (List (Passing × Expr)) := fun ts =>
  match takeMark? .closeParen ts with
  | some ts => .ok ([], ts)
  | none => do
    let (args, ts) ← separated (takeMark? .comma) (readArgument expr) ts
    let ts ← expectMark b .closeParen ts
    return (args, ts)

def readAtom (b : Bounds) (type : Parser TypeExpr) (expr : Parser Expr) : Parser Expr := fun ts =>
  let position := b.position ts
  match ts with
  | ⟨.identifier name, _⟩ :: ts | ⟨.address name, _⟩ :: ts => do
    let (typeArgs, ts) ← readTypeArgs b type ts
    return (.name position name typeArgs, ts)
  | ⟨.global, _⟩ :: ts => do
    let ts ← expectMark b .doubleColon ts
    match ts with
    | ⟨.identifier name, _⟩ :: ts => return (.global position name, ts)
    | _ => throw (.badSyntax position "identifier expected")
  | ⟨.keyword .this, _⟩ :: ts => .ok (.this position, ts)
  | ⟨.keyword .null, _⟩ :: ts => .ok (.literal position .null, ts)
  | ⟨.keyword .true, _⟩ :: ts => .ok (.literal position (.bool true), ts)
  | ⟨.keyword .false, _⟩ :: ts => .ok (.literal position (.bool false), ts)
  | ⟨.integer value, _⟩ :: ts => .ok (.literal position (.integer value), ts)
  | ⟨.string value, _⟩ :: ts => .ok (.literal position (.string value), ts)
  | ⟨.mark .openParen, _⟩ :: ts => do
    let (inner, ts) ← expr ts
    let ts ← expectMark b .closeParen ts
    return (inner, ts)
  | ts => b.fail ts s!"invalid expression term '{displayFirst ts}'"

/-- Reads one member access, call or index behind an expression. -/
def readStep (b : Bounds) (type : Parser TypeExpr) (expr : Parser Expr) (target : Expr)
    (ts : List Token) : Except Error (Option (Expr × List Token)) :=
  match ts with
  | ⟨.mark .dot, _⟩ :: ts => do
    let (name, ts) ← readName b ts
    let (typeArgs, ts) ← readTypeArgs b type ts
    return some (.member target.position target name typeArgs, ts)
  | ⟨.mark .openParen, _⟩ :: ts => do
    let (args, ts) ← readArgumentList b expr ts
    return some (.invoke target.position target args, ts)
  | ⟨.mark .openBracket, _⟩ :: ts => do
    let (indices, ts) ← separated (takeMark? .comma) expr ts
    let ts ← expectMark b .closeBracket ts
    return some (.index target.position target indices, ts)
  | _ => .ok none

def readAccess (b : Bounds) (type : Parser TypeExpr) (expr : Parser Expr) : Parser Expr :=
  fun ts => do
    let (primary, ts) ← readAtom b type expr ts
    iterate (readStep b type expr) primary ts

/-- Reads a signed or cast operand, given how to read what is one level deeper. -/
def readOperandBody (b : Bounds) (type : Parser TypeExpr) (expr unary : Parser Expr) :
    Parser Expr :=
  fun ts =>
    let position := b.position ts
    match ts with
    | ⟨.mark .minus, _⟩ :: ts => do
      let (operand, ts) ← unary ts
      return (.negate position operand, ts)
    | ⟨.mark .plus, _⟩ :: ts => unary ts
    | ts =>
      match readCastType? type ts with
      | some (castType, ts) => do
        let (operand, ts) ← unary ts
        return (.cast position castType operand, ts)
      | none => readAccess b type expr ts

/-- The operator of a compound assignment, or none of a plain one. -/
def assignment? : TokenKind → Option (Option BinaryOp)
  | .mark .assign => some none
  | .mark .plusAssign => some (some .add)
  | .mark .minusAssign => some (some .subtract)
  | .mark .starAssign => some (some .multiply)
  | .mark .slashAssign => some (some .divide)
  | _ => none

/-- Reads an assignment or a looser expression, given how to read its two sides. -/
def readExprBody (coalesce assignment : Parser Expr) : Parser Expr := fun ts => do
  let (target, ts) ← coalesce ts
  match ts with
  | [] => return (target, [])
  | token :: rest =>
    match assignment? token.kind with
    | none => return (target, token :: rest)
    | some op =>
      let (value, ts) ← assignment rest
      return (.assign target.position target op value, ts)

/-- Reads a sum, and after `??` what is one level deeper. -/
def readFallbackBody (sum coalesce : Parser Expr) : Parser Expr := fun ts => do
  let (left, ts) ← sum ts
  match takeMark? .doubleQuestion ts with
  | none => return (left, ts)
  | some ts =>
    let (right, ts) ← coalesce ts
    return (.coalesce left.position left right, ts)

mutual

/-- Reads an operand with its signs and casts, with as many levels as are left. -/
def readOperand (b : Bounds) : Nat → Parser Expr
  | 0 => fun _ => b.tooDeep
  | levels + 1 =>
    readOperandBody b (readTypeExpr b levels) (readExpr b levels) (readOperand b levels)

/-- Reads sums with `??` between them. The sum itself is read as an operand of this level. -/
def readFallback (b : Bounds) : Nat → Parser Expr
  | 0 => readSum fun _ => b.tooDeep
  | levels + 1 =>
    readFallbackBody
      (readSum <|
        readOperandBody b (readTypeExpr b levels) (readExpr b levels) (readOperand b levels))
      (readFallback b levels)

/-- Reads a whole expression with as many levels as are left. -/
def readExpr (b : Bounds) : Nat → Parser Expr
  | 0 => fun _ => b.tooDeep
  | levels + 1 => readExprBody (readFallback b levels) (readExpr b levels)

end

/-- The nesting allowed where no other limit is given. -/
def defaultMaxDepth : Nat := 128

/-- Reads a text that is one expression. -/
def parse (text : String) (maxDepth : Nat := defaultMaxDepth) : Except Error Expr := do
  let scanned ← scan text
  let b : Bounds := ⟨scanned.stop, maxDepth⟩
  match ← readExpr b maxDepth scanned.tokens with
  | (expr, []) => return expr
  | (_, ts) => b.fail ts s!"unexpected '{displayFirst ts}'"

end DebugExpr.Source
