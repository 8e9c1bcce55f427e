import DebugExpr.Metadata.Primitive

/-! Tokens of the expression language. Positions count characters from zero. -/
namespace DebugExpr.Source
open Metadata

/-- Reserved words that name no type. -/
inductive Keyword where
  | null
  | true
  | false
  | this
  | ref
  | out
  deriving DecidableEq, Repr

namespace Keyword

def all : List Keyword :=
  [null, .true, .false, this, ref, out]

def display : Keyword → String
  | null => "null"
  | .true => "true"
  | .false => "false"
  | this => "this"
  | ref => "ref"
  | out => "out"

def ofWord? (word : String) : Option Keyword :=
  all.find? (·.display == word)

end Keyword

/-- Operators and delimiters. -/
inductive Mark where
  | openParen
  | closeParen
  | openBracket
  | closeBracket
  | dot
  | comma
  | doubleColon
  | doubleQuestion
  | question
  | assign
  | plusAssign
  | minusAssign
  | starAssign
  | slashAssign
  | plus
  | minus
  | star
  | slash
  | less
  | greater
  deriving DecidableEq, Repr

namespace Mark

def display : Mark → String
  | openParen => "("
  | closeParen => ")"
  | openBracket => "["
  | closeBracket => "]"
  | dot => "."
  | comma => ","
  | doubleColon => "::"
  | doubleQuestion => "??"
  | question => "?"
  | assign => "="
  | plusAssign => "+="
  | minusAssign => "-="
  | starAssign => "*="
  | slashAssign => "/="
  | plus => "+"
  | minus => "-"
  | star => "*"
  | slash => "/"
  | less => "<"
  | greater => ">"

end Mark

inductive TokenKind where
  /-- A name, with its dollar sign if it has one. A name escaped by an at sign has lost it. -/
  | identifier (name : String)
  /-- A raw address as written, `@0x` in front. -/
  | address (text : String)
  /-- The word `global` with a double colon behind it. -/
  | global
  | keyword (word : Keyword)
  | typeKeyword (type : Primitive)
  | integer (value : UInt64)
  /-- A string with its escapes replaced. -/
  | string (value : String)
  | mark (sign : Mark)
  deriving DecidableEq, Repr

def TokenKind.display : TokenKind → String
  | identifier name => name
  | address text => text
  | global => "global"
  | keyword word => word.display
  | typeKeyword type => type.display
  | integer value => toString value.toNat
  | string value => s!"\"{value}\""
  | mark sign => sign.display

structure Token where
  kind : TokenKind
  /-- Where the token begins. -/
  position : Nat
  deriving DecidableEq, Repr

/-- What stands behind the last token. -/
def displayEnd : String := "end of expression"

/-- How diagnostics name what was found. -/
def displayFirst : List Token → String
  | [] => displayEnd
  | token :: _ => token.kind.display

end DebugExpr.Source
