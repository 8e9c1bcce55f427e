import DebugExpr.Source.Expr

/-! The parts of an expression. `subexprs` lists an expression with everything below it, and
`induction` is the induction on expressions through the lists of arguments and indices. Of a type
`paths` lists the dotted names. -/
namespace DebugExpr.Source

namespace Expr

mutual

/-- The expression and everything below it, from left to right. -/
def subexprs : Expr → List Expr
  | name p n typeArgs => [name p n typeArgs]
  | global p n => [global p n]
  | literal p value => [literal p value]
  | this p => [this p]
  | member p target n typeArgs => member p target n typeArgs :: subexprs target
  | invoke p target args => invoke p target args :: (subexprs target ++ subexprsOfArgs args)
  | index p target indices => index p target indices :: (subexprs target ++ subexprsOfAll indices)
  | cast p type operand => cast p type operand :: subexprs operand
  | negate p operand => negate p operand :: subexprs operand
  | binary p op left right => binary p op left right :: (subexprs left ++ subexprs right)
  | coalesce p left right => coalesce p left right :: (subexprs left ++ subexprs right)
  | assign p target op value => assign p target op value :: (subexprs target ++ subexprs value)

def subexprsOfArgs : List (Passing × Expr) → List Expr
  | [] => []
  | (_, value) :: rest => subexprs value ++ subexprsOfArgs rest

def subexprsOfAll : List Expr → List Expr
  | [] => []
  | e :: rest => subexprs e ++ subexprsOfAll rest

end

/-- Induction on expressions. Each argument and each index has the property already. -/
theorem induction {P : Expr → Prop} (name : ∀ p n typeArgs, P (name p n typeArgs))
    (global : ∀ p n, P (global p n)) (literal : ∀ p value, P (literal p value))
    (this : ∀ p, P (this p))
    (member : ∀ p target n typeArgs, P target → P (member p target n typeArgs))
    (invoke : ∀ p target args, P target → (∀ arg ∈ args, P arg.2) → P (invoke p target args))
    (index : ∀ p target indices, P target → (∀ i ∈ indices, P i) → P (index p target indices))
    (cast : ∀ p type operand, P operand → P (cast p type operand))
    (negate : ∀ p operand, P operand → P (negate p operand))
    (binary : ∀ p op left right, P left → P right → P (binary p op left right))
    (coalesce : ∀ p left right, P left → P right → P (coalesce p left right))
    (assign : ∀ p target op value, P target → P value → P (assign p target op value))
    (e : Expr) : P e := by
  refine Expr.rec (motive_1 := P) (motive_2 := fun args => ∀ arg ∈ args, P arg.2)
    (motive_3 := fun es => ∀ e ∈ es, P e) (motive_4 := fun arg => P arg.2) name global literal this
    member invoke index cast negate binary coalesce assign ?_ ?_ ?_ ?_ ?_ e
  · simp
  · intro arg rest ih ihRest
    simpa using And.intro ih ihRest
  · simp
  · intro first rest ih ihRest
    simpa using And.intro ih ihRest
  · exact fun _ _ ih => ih

theorem subexprsOfArgs_eq (args : List (Passing × Expr)) :
    subexprsOfArgs args = args.flatMap fun arg => arg.2.subexprs := by
  induction args with
  | nil => rfl
  | cons arg rest ih => simp only [subexprsOfArgs, ih, List.flatMap_cons]

theorem subexprsOfAll_eq (es : List Expr) : subexprsOfAll es = es.flatMap subexprs := by
  induction es with
  | nil => rfl
  | cons e rest ih => simp only [subexprsOfAll, ih, List.flatMap_cons]

/-- The expressions directly below an expression. -/
def parts : Expr → List Expr
  | name .. | global .. | literal .. | this _ => []
  | member _ target _ _ => [target]
  | invoke _ target args => target :: args.map (·.2)
  | index _ target indices => target :: indices
  | cast _ _ operand | negate _ operand => [operand]
  | binary _ _ left right | coalesce _ left right => [left, right]
  | assign _ target _ value => [target, value]

theorem subexprs_eq (e : Expr) : e.subexprs = e :: e.parts.flatMap subexprs := by
  cases e <;> simp [subexprs, parts, subexprsOfArgs_eq, subexprsOfAll_eq, List.flatMap_map]

theorem self_mem_subexprs (e : Expr) : e ∈ e.subexprs := by
  rw [subexprs_eq]
  exact List.mem_cons_self

theorem subexprs_part {part e : Expr} (direct : part ∈ e.parts) :
    part.subexprs ⊆ e.subexprs := by
  intro sub below
  rw [subexprs_eq]
  exact List.mem_cons_of_mem _ (List.mem_flatMap.mpr ⟨part, direct, below⟩)

/-- The name that an expression itself is. -/
def simpleName? : Expr → Option String
  | name _ n _ => some n
  | _ => none

/-- The names in an expression that stand for themselves, and not behind a dot. -/
def simpleNames (e : Expr) : List String :=
  e.subexprs.filterMap simpleName?

end Expr

namespace TypeExpr

mutual

/-- The dotted names in a type, each by its parts and their numbers of type arguments. -/
def paths : TypeExpr → List (List (String × Nat))
  | keyword _ => []
  | named _ segments =>
    (segments.map fun (name, args) => (name, args.length)) :: pathsOfSegments segments
  | nullable inner => paths inner
  | array element _ => paths element

def pathsOfSegments : List (String × List TypeExpr) → List (List (String × Nat))
  | [] => []
  | (_, args) :: rest => pathsOfAll args ++ pathsOfSegments rest

def pathsOfAll : List TypeExpr → List (List (String × Nat))
  | [] => []
  | t :: rest => paths t ++ pathsOfAll rest

end

theorem pathsOfAll_eq (ts : List TypeExpr) : pathsOfAll ts = ts.flatMap paths := by
  induction ts with
  | nil => rfl
  | cons t rest ih => rw [pathsOfAll, ih, List.flatMap_cons]

theorem pathsOfSegments_eq (segments : List (String × List TypeExpr)) :
    pathsOfSegments segments = segments.flatMap fun s => s.2.flatMap paths := by
  induction segments with
  | nil => rfl
  | cons segment rest ih => rw [pathsOfSegments, ih, pathsOfAll_eq, List.flatMap_cons]

/-- A dotted name without type arguments is looked for as a whole alone. -/
theorem paths_plain (isGlobal : Bool) (path : List String) :
    (named isGlobal (path.map fun part => (part, []))).paths = [path.map (·, 0)] := by
  have none : pathsOfSegments (path.map fun part => (part, [])) = [] := by
    induction path with
    | nil => rfl
    | cons part rest ih => exact ih
  rw [paths, none, List.map_map]
  rfl

end TypeExpr

end DebugExpr.Source
