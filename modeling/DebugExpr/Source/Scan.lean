import DebugExpr.Error
import DebugExpr.Parsing.Iterate
import DebugExpr.Source.Token
import DebugExpr.Text.Blank
import DebugExpr.Text.Digits
import DebugExpr.Text.Letter

/-! From characters to tokens. Each token is the longest that begins where the blanks end. A dollar
sign begins a name and belongs to it, so that `$ReturnValue-2` is a name, an operator and a number,
while `$ReturnValue3A` is one name. -/
namespace DebugExpr.Source
open Text Metadata Parsing

def isNameStart (c : Char) : Bool :=
  isLetter c || c == '_' || c == '$'

def isNamePart (c : Char) : Bool :=
  isLetter c || isNumeral c || c == '_'

/-- Position of the input that is left of an input of the given length. -/
def positionOf (length : Nat) (rest : List Char) : Nat :=
  length - rest.length

/-- The character begins a part of a name. -/
def startsNamePart (input : List Char) : Bool :=
  input.head?.any isNamePart

/-- Checks what follows the digits of a number that begins at the position, and the size of its
value. -/
def takeNumber (length start : Nat) (value : Option Nat) (rest : List Char) :
    Except Error (TokenKind × List Char) :=
  if rest.head? = some '#' then .error (.legacyObjectId start)
  else if startsNamePart rest then
    .error (.badSyntax (positionOf length rest) "invalid numeric literal")
  else
    match value with
    | some n =>
      if n < UInt64.size then .ok (.integer n.toUInt64, rest)
      else .error (.badSyntax start "integral constant is too large")
    | none => .error (.badSyntax start "integral constant is too large")

/-- Takes a hexadecimal or decimal number. -/
def scanNumber (length : Nat) (input : List Char) : Except Error (TokenKind × List Char) :=
  let decimal := takeNumber length (positionOf length input)
    (decimal? (input.takeWhile Char.isDigit)) (input.dropWhile Char.isDigit)
  match input with
  | '0' :: x :: rest =>
    if x = 'x' ∨ x = 'X' then
      takeNumber length (positionOf length input)
        (hexadecimal? (rest.takeWhile isHexDigit)) (rest.dropWhile isHexDigit)
    else decimal
  | _ => decimal

/-- The character that stands behind a backslash in a string. -/
def unescape? : Char → Option Char
  | '\x22' => some '\x22'
  | '\\' => some '\\'
  | '\x27' => some '\x27'
  | '0' => some '\x00'
  | 'n' => some '\n'
  | 'r' => some '\r'
  | 't' => some '\t'
  | _ => none

/-- Takes the rest of a string, which begins at the position and ends on its line. -/
def scanString (length start : Nat) : List Char → Except Error (List Char × List Char)
  | [] => .error (.badSyntax start "newline in constant")
  | '\\' :: rest =>
    let bad := .error (.badSyntax (positionOf length ('\\' :: rest)) "unrecognized escape sequence")
    match rest with
    | [] => bad
    | c :: rest =>
      match unescape? c with
      | none => bad
      | some c => do
        let (value, rest) ← scanString length start rest
        return (c :: value, rest)
  | c :: rest =>
    if c = '\n' then .error (.badSyntax start "newline in constant")
    else if c = '\x22' then .ok ([], rest)
    else do
      let (value, rest) ← scanString length start rest
      return (c :: value, rest)

/-- Takes what an at sign begins: an address, or a name that is no keyword. -/
def scanAt (length : Nat) (rest : List Char) : Except Error (TokenKind × List Char) :=
  let name :=
    if rest.head?.any fun c => isLetter c || c == '_' then
      .ok (.identifier (String.ofList (rest.takeWhile isNamePart)), rest.dropWhile isNamePart)
    else .error (.badSyntax (positionOf length rest - 1) "unexpected character '@'")
  match rest with
  | '0' :: x :: digits =>
    if x = 'x' ∨ x = 'X' then
      .ok (.address (String.ofList ('@' :: '0' :: x :: digits.takeWhile isNamePart)),
        digits.dropWhile isNamePart)
    else name
  | _ => name

/-- The kind of a word. The word `global` is a token of its own before a double colon alone. -/
def kindOfWord (word : String) (rest : List Char) : TokenKind :=
  if word = "global" ∧ [':', ':'].isPrefixOf (dropBlanks rest) then .global
  else
    match Keyword.ofWord? word with
    | some keyword => .keyword keyword
    | none =>
      match Primitive.ofKeyword? word with
      | some type => .typeKeyword type
      | none => .identifier word

/-- Takes a word, or a dollar sign and the name behind it. -/
def scanWord : List Char → TokenKind × List Char
  | '$' :: rest =>
    (.identifier (String.ofList ('$' :: rest.takeWhile isNamePart)), rest.dropWhile isNamePart)
  | input =>
    let rest := input.dropWhile isNamePart
    (kindOfWord (String.ofList (input.takeWhile isNamePart)) rest, rest)

/-- The operator or delimiter at the beginning, of two characters if there is one. -/
def scanMark : List Char → Option (Mark × List Char)
  | ':' :: ':' :: rest => some (.doubleColon, rest)
  | '?' :: '?' :: rest => some (.doubleQuestion, rest)
  | '+' :: '=' :: rest => some (.plusAssign, rest)
  | '-' :: '=' :: rest => some (.minusAssign, rest)
  | '*' :: '=' :: rest => some (.starAssign, rest)
  | '/' :: '=' :: rest => some (.slashAssign, rest)
  | '(' :: rest => some (.openParen, rest)
  | ')' :: rest => some (.closeParen, rest)
  | '[' :: rest => some (.openBracket, rest)
  | ']' :: rest => some (.closeBracket, rest)
  | '.' :: rest => some (.dot, rest)
  | ',' :: rest => some (.comma, rest)
  | '?' :: rest => some (.question, rest)
  | '=' :: rest => some (.assign, rest)
  | '+' :: rest => some (.plus, rest)
  | '-' :: rest => some (.minus, rest)
  | '*' :: rest => some (.star, rest)
  | '/' :: rest => some (.slash, rest)
  | '<' :: rest => some (.less, rest)
  | '>' :: rest => some (.greater, rest)
  | _ => none

/-- Takes one token of an input that begins with no blank. -/
def scanToken (length : Nat) (c : Char) (rest : List Char) : Except Error (TokenKind × List Char) :=
  let start := positionOf length (c :: rest)
  if c.isDigit then scanNumber length (c :: rest)
  else if c = '\x22' then do
    let (value, rest) ← scanString length start rest
    return (.string (String.ofList value), rest)
  else if c = '@' then scanAt length rest
  else if isNameStart c then .ok (scanWord (c :: rest))
  else
    match scanMark (c :: rest) with
    | some (mark, rest) => .ok (.mark mark, rest)
    | none => .error (.badSyntax start s!"unexpected character '{c}'")

/-- A scanned input: its tokens, and the position where it ends. -/
structure Scanned where
  tokens : List Token
  stop : Nat

/-- Scans a whole expression. -/
def scan (text : String) : Except Error Scanned := do
  let input := text.toList
  let length := input.length
  let (tokens, _) ← iterate
    (fun tokens input =>
      match dropBlanks input with
      | [] => .ok none
      | c :: rest => do
        let (kind, left) ← scanToken length c rest
        return some (⟨kind, positionOf length (c :: rest)⟩ :: tokens, left))
    [] input
  return ⟨tokens.reverse, length⟩

end DebugExpr.Source
