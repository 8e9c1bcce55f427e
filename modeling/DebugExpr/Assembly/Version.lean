import DebugExpr.Assembly.Error
import DebugExpr.Text.Blank
import DebugExpr.Text.Digits

/-! Four-part assembly versions, written `major.minor.build.revision` and compared part by part from
the left. -/
namespace DebugExpr.Assembly
open Text

structure Version where
  major : UInt16
  minor : UInt16
  build : UInt16
  revision : UInt16
  deriving DecidableEq, Repr, Inhabited

namespace Version

/-- The version of an assembly that states none. -/
def unknown : Version := ⟨0, 0, 0, 0⟩

def parts (v : Version) : List UInt16 :=
  [v.major, v.minor, v.build, v.revision]

def display (v : Version) : String :=
  s!"{v.major}.{v.minor}.{v.build}.{v.revision}"

/-- Lexicographic order of the four parts. -/
def compare (a b : Version) : Ordering :=
  (Ord.compare a.major b.major).then <|
  (Ord.compare a.minor b.minor).then <|
  (Ord.compare a.build b.build).then <|
  Ord.compare a.revision b.revision

/-- One part: a decimal numeral that fits sixteen bits. -/
def part? (cs : List Char) : Option UInt16 := do
  let n ← decimal? cs
  if n < UInt16.size then some n.toUInt16 else none

/-- One to four parts; those left out are zero. -/
def ofParts? : List UInt16 → Option Version
  | [a] => some ⟨a, 0, 0, 0⟩
  | [a, b] => some ⟨a, b, 0, 0⟩
  | [a, b, c] => some ⟨a, b, c, 0⟩
  | [a, b, c, d] => some ⟨a, b, c, d⟩
  | _ => none

/-- Reads a version of one to four parts, with blanks around it allowed. -/
def parse (text : String) : Except Error Version :=
  match ((trim text.toList).splitOn '.').mapM part? >>= ofParts? with
  | some v => .ok v
  | none => .error (.badVersion text)

end Version

end DebugExpr.Assembly
