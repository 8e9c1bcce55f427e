/-! Numbers written in digits: decimal numerals of any length, hexadecimal numerals padded to a
width, and bytes written as two hexadecimal digits each. -/
namespace DebugExpr.Text

/-- Reads a decimal numeral: one ASCII digit or more and nothing else. -/
def decimal? (cs : List Char) : Option Nat :=
  if !cs.isEmpty && cs.all Char.isDigit then some (Nat.ofDigitChars 10 cs 0) else none

theorem decimal_toDigits (n : Nat) : decimal? (Nat.toDigits 10 n) = some n := by
  have digits : (Nat.toDigits 10 n).all Char.isDigit = true :=
    List.all_eq_true.mpr fun _ member =>
      Nat.isDigit_of_mem_toDigits (by decide) (by decide) member
  simp [decimal?, Nat.toDigits_ne_nil, digits, Nat.ofDigitChars_ten_toDigits]

/-- The largest count: counts are held in sixty-four bits. -/
def maxCount : Nat := 0xFFFFFFFFFFFFFFFF

/-- Reads a count: a decimal numeral, after one plus sign or none, that does not exceed `maxCount`.
-/
def count? (cs : List Char) : Option Nat := do
  let n ← decimal? (if cs.head? = some '+' then cs.tail else cs)
  if n ≤ maxCount then some n else none

/-- The digit's value, in either case. -/
def hexValue? (c : Char) : Option Nat :=
  if c.isDigit then some (c.toNat - '0'.toNat)
  else if 'a' ≤ c ∧ c ≤ 'f' then some (c.toNat - 'a'.toNat + 10)
  else if 'A' ≤ c ∧ c ≤ 'F' then some (c.toNat - 'A'.toNat + 10)
  else none

def isHexDigit (c : Char) : Bool :=
  (hexValue? c).isSome

/-- Reads a hexadecimal numeral, one digit or more. -/
def hexadecimal? (cs : List Char) : Option Nat :=
  if cs.isEmpty then none
  else cs.foldlM (fun value c => (hexValue? c).map (value * 16 + ·)) 0

/-- Writes a number in small hexadecimal digits, with zeros in front up to the width. -/
def hex (width n : Nat) : String :=
  String.ofList ((Nat.toDigits 16 n).leftpad width '0')

/-- Reads bytes of two hexadecimal digits each. -/
def hexBytes? : List Char → Option (List UInt8)
  | [] => some []
  | [_] => none
  | high :: low :: rest => do
    let h ← hexValue? high
    let l ← hexValue? low
    let bytes ← hexBytes? rest
    return (h * 16 + l).toUInt8 :: bytes

end DebugExpr.Text
