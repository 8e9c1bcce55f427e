import DebugExpr.Proofs.TokenSpelling
import DebugExpr.Source.Expr

/-! Printing of expressions. The tiers are, from loosest to tightest, assignment, `??`, addition,
multiplication, sign and cast, and what follows a primary expression. A part whose tier is looser
than its place asks for stands in parentheses, and so does a negation below a cast. -/
namespace DebugExpr.Source
open Metadata Parsing

/-- Tokens in parentheses. -/
def parenthesize (kinds : List TokenKind) : List TokenKind :=
  .mark .openParen :: (kinds ++ [.mark .closeParen])

/-- Items with a comma between each two. -/
def commas (items : List (List TokenKind)) : List TokenKind :=
  [.mark .comma].intercalate items

/-- Type arguments in angle brackets, if there are any. -/
def angled : List (List TokenKind) → List TokenKind
  | [] => []
  | arg :: args => .mark .less :: (commas (arg :: args) ++ [.mark .greater])

namespace TypeExpr

mutual

def tokens : TypeExpr → List TokenKind
  | keyword type => [.typeKeyword type]
  | named isGlobal segments =>
    (if isGlobal then [.global, .mark .doubleColon] else []) ++
      [.mark .dot].intercalate (tokensOfSegments segments)
  | nullable inner => tokens inner ++ [.mark .question]
  | array element rank =>
    tokens element ++
      .mark .openBracket :: (List.replicate (rank - 1) (.mark .comma) ++ [.mark .closeBracket])

def tokensOfSegments : List (String × List TypeExpr) → List (List TokenKind)
  | [] => []
  | (name, args) :: rest =>
    (.identifier name :: angled (tokensOfAll args)) :: tokensOfSegments rest

def tokensOfAll : List TypeExpr → List (List TokenKind)
  | [] => []
  | t :: rest => tokens t :: tokensOfAll rest

end

/-- The type arguments of a name. -/
def argTokens (args : List TypeExpr) : List TokenKind :=
  angled (args.map tokens)

/-- One part of a dotted name. -/
def segmentTokens (segment : String × List TypeExpr) : List TokenKind :=
  .identifier segment.1 :: argTokens segment.2

theorem tokensOfAll_eq (ts : List TypeExpr) : tokensOfAll ts = ts.map tokens := by
  induction ts with
  | nil => rfl
  | cons t rest ih => rw [tokensOfAll, ih, List.map_cons]

theorem tokensOfSegments_eq (segments : List (String × List TypeExpr)) :
    tokensOfSegments segments = segments.map segmentTokens := by
  induction segments with
  | nil => rfl
  | cons segment rest ih =>
    rw [tokensOfSegments, ih, tokensOfAll_eq, List.map_cons, segmentTokens, argTokens]

theorem tokens_named (isGlobal : Bool) (segments : List (String × List TypeExpr)) :
    (named isGlobal segments).tokens =
      (if isGlobal then [.global, .mark .doubleColon] else []) ++
        [.mark .dot].intercalate (segments.map segmentTokens) := by
  rw [tokens, tokensOfSegments_eq]

end TypeExpr

/-- The token of a simple name. A raw address is one with an at sign in front. -/
def nameToken (name : String) : TokenKind :=
  if name.toList.head? = some '@' then .address name else .identifier name

def Literal.token : Literal → TokenKind
  | null => .keyword .null
  | bool true => .keyword .true
  | bool false => .keyword .false
  | integer value => .integer value
  | string value => .string value

def Passing.tokens : Passing → List TokenKind
  | value => []
  | ref => [.keyword .ref]
  | out => [.keyword .out]

namespace BinaryOp

def tier : BinaryOp → Nat
  | add | subtract => 2
  | multiply | divide => 3

def mark : BinaryOp → Mark
  | add => .plus
  | subtract => .minus
  | multiply => .star
  | divide => .slash

/-- The mark of an assignment, compound if there is an operator. -/
def assignMark : Option BinaryOp → Mark
  | none => .assign
  | some add => .plusAssign
  | some subtract => .minusAssign
  | some multiply => .starAssign
  | some divide => .slashAssign

end BinaryOp

namespace Expr

/-- How tightly a node binds. -/
def tier : Expr → Nat
  | assign .. => 0
  | coalesce .. => 1
  | binary _ op .. => op.tier
  | cast .. | negate .. => 4
  | name .. | global .. | literal .. | this .. | member .. | invoke .. | index .. => 5

theorem tier_le (e : Expr) : e.tier ≤ 5 := by
  cases e with
  | binary _ op => cases op <;> simp [tier, BinaryOp.tier]
  | _ => simp [tier]

def isNegation : Expr → Bool
  | negate .. => true
  | _ => false

/-- Tokens of an expression in a place that asks for a tier. -/
def placed (tier : Nat) (e : Expr) (kinds : List TokenKind) : List TokenKind :=
  if e.tier < tier then parenthesize kinds else kinds

/-- Tokens of an expression below a cast. -/
def placedUnderCast (e : Expr) (kinds : List TokenKind) : List TokenKind :=
  if e.isNegation then parenthesize kinds else placed 4 e kinds

mutual

def tokens : Expr → List TokenKind
  | name _ n typeArgs => nameToken n :: TypeExpr.argTokens typeArgs
  | global _ n => [.global, .mark .doubleColon, .identifier n]
  | literal _ value => [value.token]
  | this _ => [.keyword .this]
  | member _ target n typeArgs =>
    placed 5 target (tokens target) ++ .mark .dot :: .identifier n :: TypeExpr.argTokens typeArgs
  | invoke _ target args =>
    placed 5 target (tokens target) ++ parenthesize (commas (tokensOfArgs args))
  | index _ target indices =>
    placed 5 target (tokens target) ++
      .mark .openBracket :: (commas (tokensOfAll indices) ++ [.mark .closeBracket])
  | cast _ type operand => parenthesize type.tokens ++ placedUnderCast operand (tokens operand)
  | negate _ operand => .mark .minus :: placed 4 operand (tokens operand)
  | binary _ op left right =>
    placed op.tier left (tokens left) ++
      .mark op.mark :: placed (op.tier + 1) right (tokens right)
  | coalesce _ left right =>
    placed 2 left (tokens left) ++ .mark .doubleQuestion :: placed 1 right (tokens right)
  | assign _ target op value =>
    placed 1 target (tokens target) ++ .mark (BinaryOp.assignMark op) :: tokens value

def tokensOfArgs : List (Passing × Expr) → List (List TokenKind)
  | [] => []
  | (passing, value) :: rest => (passing.tokens ++ tokens value) :: tokensOfArgs rest

def tokensOfAll : List Expr → List (List TokenKind)
  | [] => []
  | e :: rest => tokens e :: tokensOfAll rest

end

/-- An argument with the word that says how it is passed. -/
def argumentTokens (arg : Passing × Expr) : List TokenKind :=
  arg.1.tokens ++ arg.2.tokens

theorem tokensOfArgs_eq (args : List (Passing × Expr)) :
    tokensOfArgs args = args.map argumentTokens := by
  induction args with
  | nil => rfl
  | cons arg rest ih => rw [tokensOfArgs, ih, List.map_cons, argumentTokens]

theorem tokensOfAll_eq (es : List Expr) : tokensOfAll es = es.map tokens := by
  induction es with
  | nil => rfl
  | cons e rest ih => rw [tokensOfAll, ih, List.map_cons]

theorem tokens_invoke (position : Nat) (target : Expr) (args : List (Passing × Expr)) :
    (invoke position target args).tokens =
      placed 5 target target.tokens ++ parenthesize (commas (args.map argumentTokens)) := by
  rw [tokens, tokensOfArgs_eq]

theorem tokens_index (position : Nat) (target : Expr) (indices : List Expr) :
    (index position target indices).tokens =
      placed 5 target target.tokens ++
        .mark .openBracket :: (commas (indices.map tokens) ++ [.mark .closeBracket]) := by
  rw [tokens, tokensOfAll_eq]

/-- The text of an expression. -/
def print (e : Expr) : String :=
  String.ofList (spellAll e.tokens)

mutual

/-- The expression without its positions. -/
def bare : Expr → Expr
  | name _ n typeArgs => name 0 n typeArgs
  | global _ n => global 0 n
  | literal _ value => literal 0 value
  | this _ => this 0
  | member _ target n typeArgs => member 0 (bare target) n typeArgs
  | invoke _ target args => invoke 0 (bare target) (bareArgs args)
  | index _ target indices => index 0 (bare target) (bareAll indices)
  | cast _ type operand => cast 0 type (bare operand)
  | negate _ operand => negate 0 (bare operand)
  | binary _ op left right => binary 0 op (bare left) (bare right)
  | coalesce _ left right => coalesce 0 (bare left) (bare right)
  | assign _ target op value => assign 0 (bare target) op (bare value)

def bareArgs : List (Passing × Expr) → List (Passing × Expr)
  | [] => []
  | (passing, value) :: rest => (passing, bare value) :: bareArgs rest

def bareAll : List Expr → List Expr
  | [] => []
  | e :: rest => bare e :: bareAll rest

end

theorem bareArgs_eq (args : List (Passing × Expr)) :
    bareArgs args = args.map (Prod.map id bare) := by
  induction args with
  | nil => rfl
  | cons arg rest ih =>
    rw [bareArgs, ih]
    rfl

theorem bareAll_eq (es : List Expr) : bareAll es = es.map bare := by
  induction es with
  | nil => rfl
  | cons e rest ih => rw [bareAll, ih, List.map_cons]

end Expr

end DebugExpr.Source
