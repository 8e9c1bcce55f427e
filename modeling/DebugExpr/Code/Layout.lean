import DebugExpr.Code.Encoder
import DebugExpr.Code.Method

/-! Layout of a method body. Every branch begins in its short form. Each pass lays the instructions
out and widens the branches that do not reach their targets, and the passes end when none is
widened. -/
namespace DebugExpr.Code
open Metadata

/-- Offsets of the instructions from the given one on, and of the end behind them. -/
def offsetsFrom (start : Nat) : List Item → List Nat
  | [] => [start]
  | item :: rest => start :: offsetsFrom (start + item.opcode.size) rest

/-- Offsets of the instructions and of the end of the body. -/
def offsets (items : List Item) : Array Nat :=
  (offsetsFrom 0 items).toArray

/-- A displacement fits one signed byte. -/
def fitsByte (displacement : Int) : Bool :=
  -128 ≤ displacement && displacement ≤ 127

/-- Where the labels stand, as indices of the instructions that follow them. -/
abbrev Targets := Array Nat

/-- The offset of a label in a layout. -/
def targetOffset (targets : Targets) (layout : Array Nat) (label : Label) : Nat :=
  layout.getD (targets.getD label.id 0) 0

/-- Widens a branch in short form that ends at the offset and does not reach its target. -/
def widenItem (targets : Targets) (layout : Array Nat) (item : Item) (next : Nat) : Item :=
  match item with
  | .branch condition false target =>
    .branch condition (!fitsByte ((targetOffset targets layout target : Int) - next)) target
  | item => item

/-- One pass over all branches, against the offsets before it. -/
def widenPass (targets : Targets) (items : List Item) : List Item :=
  let layout := offsets items
  items.mapIdx fun i item => widenItem targets layout item (layout.getD (i + 1) 0)

def isNarrow : Item → Bool
  | .branch _ wide _ => !wide
  | .plain .. => false

/-- Repeats the pass until no further branch is widened. -/
def settle (targets : Targets) (items : List Item) : List Item :=
  let next := widenPass targets items
  if next.countP isNarrow < items.countP isNarrow then settle targets next else items
termination_by items.countP isNarrow

/-- Puts an instruction at its place. -/
def placeItem (targets : Targets) (layout : Array Nat) (item : Item) (offset : Nat) : Instruction :=
  ⟨offset, item.opcode, match item with
    | .plain _ operand => operand
    | .branch _ _ target => .target (targetOffset targets layout target)⟩

/-- The index that every label stands for; the first that is not defined is at fault. -/
def Encoder.targets (e : Encoder) : Except Fault Targets := do
  let indices ← e.labels.toList.mapIdxM fun id index? =>
    match index? with
    | some index => Except.ok index
    | none => .error (Fault.undefinedLabel ⟨id⟩)
  return indices.toArray

/-- Lays the method out. -/
def Encoder.finish (e : Encoder) (returnType : Option ClosedType) : Except Fault MethodBody := do
  let targets ← e.targets
  let items := settle targets e.items.toList
  let layout := offsets items
  return {
    instructions := items.mapIdx fun i item => placeItem targets layout item (layout.getD i 0)
    maxStack := e.maxDepth
    locals := e.locals.toList
    codeSize := layout.getD items.length 0
    returnType }

end DebugExpr.Code
