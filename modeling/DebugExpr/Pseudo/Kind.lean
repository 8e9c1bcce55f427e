import DebugExpr.Text.Digits

/-! Pseudo-variables, the names that the debugger and not the program gives a meaning: the current
exception, return values of recent calls, numbered objects and raw addresses. The spelling alone
decides which one a name is, and case counts. -/
namespace DebugExpr.Pseudo
open Text

inductive Kind where
  | exception
  | stowedException
  /-- A return value, of which the one without a number has index zero. -/
  | returnValue (index : Nat)
  /-- An object that the user has numbered, by the digits as written. -/
  | objectId (digits : String)
  | address (value : UInt64)
  /-- No pseudo-variable. -/
  | ordinary
  deriving DecidableEq, Repr, Inhabited

namespace Kind

/-- The digits of an object id: no zero in front. -/
def isObjectId (digits : List Char) : Bool :=
  (decimal? digits).isSome && digits.head? != some '0'

/-- Indices of return values are passed as signed numbers of thirty-two bits. -/
def indexLimit : Nat := 0x80000000

/-- What follows the name of a return value: nothing, or an index below the limit. -/
def ofReturnValue (digits : List Char) : Kind :=
  if digits.isEmpty then returnValue 0
  else
    match decimal? digits with
    | some index => if index < indexLimit then returnValue index else ordinary
    | none => ordinary

/-- What follows a dollar sign that begins no other name. -/
def ofObjectId (digits : List Char) : Kind :=
  if isObjectId digits then objectId (String.ofList digits) else ordinary

/-- What follows `@0x`: an address of sixty-four bits. -/
def ofAddress (digits : List Char) : Kind :=
  match hexadecimal? digits with
  | some value => if value < UInt64.size then address value.toUInt64 else ordinary
  | none => ordinary

/-- The pseudo-variable that a name spells. -/
def ofLexeme (lexeme : String) : Kind :=
  let cs := lexeme.toList
  if lexeme = "$exception" then exception
  else if lexeme = "$stowedexception" then stowedException
  else if "$ReturnValue".toList.isPrefixOf cs || "$returnvalue".toList.isPrefixOf cs then
    ofReturnValue (cs.drop "$ReturnValue".length)
  else
    match cs with
    | '$' :: digits => ofObjectId digits
    | '@' :: '0' :: 'x' :: digits => ofAddress digits
    | '@' :: '0' :: 'X' :: digits => ofAddress digits
    | _ => ordinary

/-- The number after the name of a return value; the first one has none. -/
def returnValueName (index : Nat) : String :=
  if index = 0 then "$ReturnValue" else s!"$ReturnValue{index}"

/-- The key under which an inspection context holds the pseudo-variable. -/
def entryKey? : Kind → Option String
  | exception => some "$exception"
  | stowedException => some "$stowedexception"
  | returnValue index => some (returnValueName index)
  | objectId digits => some digits
  | address value => some ("0x" ++ hex 1 value.toNat)
  | ordinary => none

def isPseudoVariable (kind : Kind) : Bool :=
  kind != ordinary

def display : Kind → String
  | exception => "$exception"
  | stowedException => "$stowedexception"
  | returnValue index => returnValueName index
  | objectId digits => "$" ++ digits
  | address value => "@0x" ++ hex 1 value.toNat
  | ordinary => "<none>"

end Kind

end DebugExpr.Pseudo
