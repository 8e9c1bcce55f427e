import DebugExpr.Proofs.ExprPrinter

/-! Nesting of printed expressions. Every type counts one level, and so does every sign, cast, right
side of `??` and value of an assignment. What stands between parentheses or brackets counts two, as
an expression and as its first operand. -/
namespace DebugExpr.Source

/-- A measure of lists that is the greatest of a measure of their items bounds each of these. -/
theorem le_of_greatest {α : Type} {f : α → Nat} {greatest : List α → Nat}
    (cons : ∀ x rest, greatest (x :: rest) = max (f x) (greatest rest)) {x : α} {xs : List α}
    (member : x ∈ xs) : f x ≤ greatest xs := by
  induction xs with
  | nil => cases member
  | cons first rest ih =>
    rw [cons]
    rcases List.mem_cons.mp member with rfl | later
    · exact Nat.le_max_left ..
    · exact (ih later).trans (Nat.le_max_right ..)

namespace TypeExpr

mutual

/-- The levels that a type takes. -/
def depth : TypeExpr → Nat
  | keyword _ => 1
  | named _ segments => depthOfSegments segments + 1
  | nullable inner => depth inner
  | array element _ => depth element

def depthOfSegments : List (String × List TypeExpr) → Nat
  | [] => 0
  | (_, args) :: rest => max (depthOfAll args) (depthOfSegments rest)

def depthOfAll : List TypeExpr → Nat
  | [] => 0
  | t :: rest => max (depth t) (depthOfAll rest)

end

theorem depth_le_all {t : TypeExpr} {ts : List TypeExpr} (member : t ∈ ts) :
    t.depth ≤ depthOfAll ts :=
  le_of_greatest (fun _ _ => by rw [depthOfAll]) member

theorem depth_le_segments {segment : String × List TypeExpr}
    {segments : List (String × List TypeExpr)} (member : segment ∈ segments) :
    depthOfAll segment.2 ≤ depthOfSegments segments :=
  le_of_greatest (f := fun s : String × List TypeExpr => depthOfAll s.2)
    (fun _ _ => by rw [depthOfSegments]) member

theorem depthOfAll_le {levels : Nat} {ts : List TypeExpr} (each : ∀ t ∈ ts, t.depth ≤ levels) :
    depthOfAll ts ≤ levels := by
  induction ts with
  | nil => exact Nat.zero_le _
  | cons t rest ih =>
    rw [List.forall_mem_cons] at each
    exact Nat.max_le.mpr ⟨each.1, ih each.2⟩

theorem depth_named_le {levels : Nat} {isGlobal : Bool} {segments : List (String × List TypeExpr)}
    (each : ∀ segment ∈ segments, ∀ t ∈ segment.2, t.depth ≤ levels) :
    (named isGlobal segments).depth ≤ levels + 1 := by
  refine Nat.succ_le_succ ?_
  induction segments with
  | nil => exact Nat.zero_le _
  | cons segment rest ih =>
    rw [List.forall_mem_cons] at each
    exact Nat.max_le.mpr ⟨depthOfAll_le each.1, ih each.2⟩

end TypeExpr

namespace Expr

/-- The depth of an expression in a place that asks for a tier. -/
def placedDepth (tier : Nat) (e : Expr) (depth : Nat) : Nat :=
  if e.tier < tier then depth + 2 else depth

/-- The depth of an expression below a cast. -/
def placedDepthUnderCast (e : Expr) (depth : Nat) : Nat :=
  if e.isNegation then depth + 2 else placedDepth 4 e depth

mutual

/-- The levels that an expression takes besides those of itself and of its first operand. -/
def depth : Expr → Nat
  | name _ _ typeArgs => TypeExpr.depthOfAll typeArgs
  | global .. | literal .. | this _ => 0
  | member _ target _ typeArgs =>
    max (placedDepth 5 target (depth target)) (TypeExpr.depthOfAll typeArgs)
  | invoke _ target args => max (placedDepth 5 target (depth target)) (depthOfArgs args)
  | index _ target indices => max (placedDepth 5 target (depth target)) (depthOfAll indices)
  | cast _ type operand => max type.depth (placedDepthUnderCast operand (depth operand) + 1)
  | negate _ operand => placedDepth 4 operand (depth operand) + 1
  | binary _ op left right =>
    max (placedDepth op.tier left (depth left)) (placedDepth (op.tier + 1) right (depth right))
  | coalesce _ left right =>
    max (placedDepth 2 left (depth left)) (placedDepth 1 right (depth right) + 1)
  | assign _ target _ value => max (placedDepth 1 target (depth target)) (depth value + 1)

def depthOfArgs : List (Passing × Expr) → Nat
  | [] => 0
  | (_, value) :: rest => max (depth value + 2) (depthOfArgs rest)

def depthOfAll : List Expr → Nat
  | [] => 0
  | e :: rest => max (depth e + 2) (depthOfAll rest)

end

theorem depth_lt_args {arg : Passing × Expr} {args : List (Passing × Expr)} (member : arg ∈ args) :
    arg.2.depth + 2 ≤ depthOfArgs args :=
  le_of_greatest (f := fun arg : Passing × Expr => arg.2.depth + 2)
    (fun _ _ => by rw [depthOfArgs]) member

theorem depth_lt_all {e : Expr} {es : List Expr} (member : e ∈ es) : e.depth + 2 ≤ depthOfAll es :=
  le_of_greatest (f := fun e => e.depth + 2) (fun _ _ => by rw [depthOfAll]) member

end Expr

end DebugExpr.Source
