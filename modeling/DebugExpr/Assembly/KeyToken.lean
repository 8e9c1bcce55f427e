import DebugExpr.Assembly.Error
import DebugExpr.Text.Blank
import DebugExpr.Text.Digits

/-! Public key tokens, the eight bytes that identify the signer of an assembly. -/
namespace DebugExpr.Assembly
open Text

structure KeyToken where
  bytes : List UInt8
  length_eq : bytes.length = 8 := by decide
  deriving DecidableEq, Repr

namespace KeyToken

/-- Sixteen small hexadecimal digits, in byte order. -/
def display (token : KeyToken) : String :=
  String.join (token.bytes.map fun byte => hex 2 byte.toNat)

def ofBytes? (bytes : List UInt8) : Option KeyToken :=
  if h : bytes.length = 8 then some ⟨bytes, h⟩ else none

/-- Reads exactly sixteen hexadecimal digits of either case, with blanks around them allowed. -/
def parse (text : String) : Except Error KeyToken :=
  match hexBytes? (trim text.toList) >>= ofBytes? with
  | some token => .ok token
  | none => .error (.badKeyToken text)

end KeyToken

end DebugExpr.Assembly
