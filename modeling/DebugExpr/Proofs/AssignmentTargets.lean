import DebugExpr.Proofs.BindingInduction
import DebugExpr.Proofs.CoherentConversions
import DebugExpr.Proofs.ThisPaths

/-! Targets of assignments and arguments by reference. Both have to be variables. An expression is
taken for one if it is a simple name, a member or an array element that denotes storage, or such an
expression in casts to the type that it has. Those casts leave no mark on the term. Every other
expression that can be bound is refused. -/
namespace DebugExpr

namespace Source.Expr

/-- The expression inside the casts around it. -/
def uncast : Expr → Expr
  | cast _ _ operand => uncast operand
  | e => e

/-- The types of the casts around an expression, outermost first. -/
def castTypes : Expr → List TypeExpr
  | cast _ written operand => written :: castTypes operand
  | _ => []

def isCast : Expr → Bool
  | cast .. => true
  | _ => false

/-- A simple name, a member behind a dot or an array element. -/
def namesVariable : Expr → Bool
  | name .. | member .. | index .. => true
  | _ => false

end Source.Expr

namespace Bound
open Metadata Source

namespace Scope
variable {s : Scope} {e : Expr} {t u : Term} {passing : Passing}

/-- The expression denotes a variable: inside its casts stands a name, a member or an element that
is bound to storage, and each cast is to the type that the variable has. -/
structure IsVariable (s : Scope) (e : Expr) (t : Term) : Prop where
  named : e.uncast.namesVariable = true
  bound : s.bind e.uncast = .ok t
  assignable : t.isAssignable = true
  casts : ∀ written ∈ e.castTypes, ∃ type own, s.resolveType written = .ok type ∧
    t.type? = some own ∧ (own == type) = true

/-- What a call names is found: methods, and the types behind their name. -/
inductive Callee (s : Scope) : Expr → Prop
  | own {position : Nat} {name : String} {written : List TypeExpr}
    {found : ClosedType × List Method × Option Term} {types : List ClosedType}
    (finds : s.ownMethods name written = .ok found)
    (resolves : s.resolveTypes written = .ok types) : Callee s (.name position name written)
  | member {position : Nat} {target : Expr} {name : String} {written : List TypeExpr}
    {receiver : Receiver} {found : ClosedType × List Method × Option Term}
    {types : List ClosedType} (before : s.receiver target (s.bind target) = .ok receiver)
    (finds : s.memberMethods receiver name = .ok found)
    (resolves : s.resolveTypes written = .ok types) :
    Callee s (.member position target name written)

theorem targetTerm_eq_ok : s.targetTerm e = .ok t ↔ s.bind e = .ok t ∧ t.isAssignable = true := by
  constructor
  · intro h
    obtain ⟨found, bound, checks⟩ := bind_eq_ok.mp h
    obtain ⟨rfl, assignable⟩ := checkTarget_eq_ok checks
    exact ⟨bound, assignable⟩
  · rintro ⟨bound, assignable⟩
    simp only [targetTerm, bound, ok_bind, checkTarget, assignable, if_true]

/-! ### Terms that denote storage -/

theorem not_isAssignable_constant {n : Int} {p : Primitive} (h : s.integerTerm n p = .ok t) :
    t.isAssignable = false := by
  obtain ⟨type, -, rfl⟩ := integerTerm_eq_ok.mp h
  rfl

/-- Conversion makes no variable, but it leaves one as it is that has the type. -/
theorem convert_assignable {type : ClosedType} {explicit : Bool}
    (h : s.convert u type explicit = .ok t) (assignable : t.isAssignable = true) :
    t = u ∧ ∃ own, u.type? = some own ∧ (own == type) = true := by
  cases convert_eq_ok h with
  | refit refits =>
    obtain ⟨n, p, -, -, -, made⟩ := refit_eq_some refits
    simp [not_isAssignable_constant made] at assignable
  | same typed same => exact ⟨rfl, _, typed, same⟩
  | via => cases assignable

/-- An integer constant is no variable, so that nothing but its type decides how a variable is
converted. -/
theorem refit_assignable (assignable : t.isAssignable = true) (type : ClosedType) :
    s.refit t type = .ok none := by
  cases t <;> first | rfl | cases assignable

/-- Only names, members, elements and casts are bound to storage. -/
theorem names_or_casts (bound : s.bind e = .ok t) :
    t.isAssignable = true → e.namesVariable = true ∨ e.isCast = true := by
  refine bind_induction
    (P := fun e t => t.isAssignable = true → e.namesVariable = true ∨ e.isCast = true)
    (Q := fun _ _ _ => True) (R := fun _ _ => True) ?name ?literal ?this ?member ?ownCall
    ?memberCall ?index ?cast ?negateLiteral ?negate ?binary ?coalesce ?assign trivial
    (fun _ _ _ => trivial) trivial (fun _ _ _ => trivial) bound
  case name => exact fun _ _ => .inl rfl
  case member => exact fun _ _ _ _ _ => .inl rfl
  case index => exact fun _ _ _ _ _ => .inl rfl
  case cast => exact fun _ _ _ _ => .inr rfl
  case this => exact fun _ assignable => nomatch assignable
  case literal =>
    intro _ _ t h assignable
    rcases literalTerm_eq_ok h with rfl | ⟨_, _, -, rfl⟩ | ⟨_, _, -, rfl⟩ | ⟨n, made⟩
    · cases assignable
    · cases assignable
    · cases assignable
    · simp [not_isAssignable_constant made] at assignable
  case negateLiteral =>
    intro _ _ _ t h assignable
    obtain ⟨p, -, made⟩ := negatedLiteral_eq_ok h
    simp [not_isAssignable_constant made] at assignable
  case negate =>
    intro _ _ _ t _ h assignable
    obtain ⟨operand, -, -, rfl⟩ := negate_eq_ok h
    cases assignable
  case binary =>
    intro _ _ _ _ _ _ _ _ t _ _ _ _ h assignable
    obtain ⟨_, _, -, -, -, -, ⟨-, rfl⟩ | ⟨_, -, rfl⟩ | ⟨_, -, rfl⟩⟩ := arithmetic_eq_ok h <;>
      cases assignable
  case coalesce =>
    intro _ _ _ _ _ t _ _ h assignable
    obtain ⟨_, -, -, ⟨_, -, rfl⟩ | ⟨_, _, -, -, rfl⟩⟩ := coalesceTerm_eq_ok h <;> cases assignable
  case assign =>
    intro _ _ _ _ _ _ t _ _ _ _ h assignable
    obtain ⟨_, _, -, -, ⟨-, rfl⟩ | ⟨_, -, -, rfl⟩⟩ := assign_eq_ok h <;> cases assignable
  case ownCall =>
    intro _ _ _ _ _ _ t site _ _ _ h assignable
    obtain ⟨m, -, h⟩ := callOf_eq_ok h
    obtain ⟨-, -, _, _, _, -, -, -, rfl⟩ := callOf?_eq_some h
    cases assignable
  case memberCall =>
    intro _ _ _ _ _ _ _ _ t site _ _ _ _ _ _ h assignable
    obtain ⟨m, -, h⟩ := callOf_eq_ok h
    obtain ⟨-, -, _, _, _, -, -, -, rfl⟩ := callOf?_eq_some h
    cases assignable

/-- A cast that is bound to storage is one to the type that its operand has, and is bound to the
same term. -/
theorem bind_cast_assignable {position : Nat} {written : TypeExpr}
    (assignable : t.isAssignable = true) :
    s.bind (.cast position written e) = .ok t ↔ s.bind e = .ok t ∧
      ∃ type own, s.resolveType written = .ok type ∧ t.type? = some own ∧
        (own == type) = true := by
  constructor
  · intro bound
    obtain ⟨type, resolves, bound⟩ := bind_eq_ok.mp bound
    obtain ⟨u, bound, converts⟩ := bind_eq_ok.mp bound
    obtain ⟨rfl, own, typed, same⟩ := convert_assignable converts assignable
    exact ⟨bound, type, own, resolves, typed, same⟩
  · rintro ⟨bound, type, own, resolves, typed, same⟩
    simp only [bind, resolves, bound, ok_bind]
    exact convert_of_typed (refit_assignable assignable type) typed same

/-- What is bound to storage denotes a variable, and is bound to the same term inside its casts. -/
theorem isVariable_iff : s.IsVariable e t ↔ s.bind e = .ok t ∧ t.isAssignable = true := by
  fun_induction Expr.uncast e with
  | case1 position written operand ih =>
    constructor
    · intro h
      have inside : s.IsVariable operand t :=
        ⟨h.named, h.bound, h.assignable, fun w below => h.casts w (List.mem_cons_of_mem _ below)⟩
      have bound := (ih.mp inside).1
      exact ⟨(bind_cast_assignable h.assignable).mpr ⟨bound, h.casts written List.mem_cons_self⟩,
        h.assignable⟩
    · rintro ⟨bound, assignable⟩
      obtain ⟨bound, casts⟩ := (bind_cast_assignable assignable).mp bound
      have inside := ih.mpr ⟨bound, assignable⟩
      exact ⟨inside.named, inside.bound, assignable, List.forall_mem_cons.mpr ⟨casts, inside.casts⟩⟩
  | case2 e notCast =>
    have bare : e.uncast = e ∧ e.castTypes = [] ∧ e.isCast = false := by
      cases e <;> first | exact ⟨rfl, rfl, rfl⟩ | exact absurd rfl (notCast _ _ _)
    obtain ⟨uncast, casts, isCast⟩ := bare
    constructor
    · intro h
      exact ⟨uncast ▸ h.bound, h.assignable⟩
    · rintro ⟨bound, assignable⟩
      have named := names_or_casts bound assignable
      simp only [isCast, Bool.false_eq_true, or_false] at named
      exact ⟨by rwa [uncast], by rwa [uncast], assignable, by simp [casts]⟩

/-! ### Calls -/

theorem checkArgument_refused (byRef : passing ≠ .value) (unassignable : t.isAssignable = false) :
    checkArgument passing t = .error (.notAssignable .refArgument) := by
  simp [checkArgument, byRef, unassignable]

/-- The first argument by reference that is no variable is reported, after those before it. -/
theorem argumentTerms_refused {before after : List (Passing × Expr)} (byRef : passing ≠ .value)
    (bound : s.bind e = .ok t) (unassignable : t.isAssignable = false)
    {terms : List (Bool × Term)} (ready : s.argumentTerms before = .ok terms) :
    s.argumentTerms (before ++ (passing, e) :: after) =
      .error (.notAssignable .refArgument) := by
  induction before generalizing terms with
  | nil =>
    simp only [List.nil_append, argumentTerms, bound, ok_bind,
      checkArgument_refused byRef unassignable]
    rfl
  | cons arg before ih =>
    obtain ⟨u, boundArg, ready⟩ := bind_eq_ok.mp ready
    obtain ⟨checked, checks, ready⟩ := bind_eq_ok.mp ready
    obtain ⟨rest, ready, -⟩ := bind_eq_ok.mp ready
    simp only [List.cons_append, argumentTerms, boundArg, checks, ok_bind, ih ready]
    rfl

theorem argumentTerms_assignable {args : List (Passing × Expr)} {terms : List (Bool × Term)}
    (h : s.argumentTerms args = .ok terms) (among : (passing, e) ∈ args)
    (byRef : passing ≠ .value) : ∃ u, s.bind e = .ok u ∧ u.isAssignable = true := by
  induction args generalizing terms with
  | nil => cases among
  | cons arg args ih =>
    obtain ⟨u, bound, h⟩ := bind_eq_ok.mp h
    obtain ⟨checked, checks, h⟩ := bind_eq_ok.mp h
    obtain ⟨rest, h, -⟩ := bind_eq_ok.mp h
    rcases List.mem_cons.mp among with rfl | among
    · obtain ⟨isRef, rfl, assignable⟩ := checkArgument_eq_ok checks
      exact ⟨_, bound, assignable (by simpa [isRef] using byRef)⟩
    · exact ih h among

theorem Callee.bind_eq {f : Expr} (callee : s.Callee f) {position : Nat}
    {args : List (Passing × Expr)} {error : Error} (h : s.argumentTerms args = .error error) :
    s.bind (.invoke position f args) = .error error := by
  cases callee with
  | own finds resolves =>
    simp only [bind, finds, resolves, h, ok_bind]
    rfl
  | member before finds resolves =>
    simp only [bind, before, finds, resolves, h, ok_bind]
    rfl

theorem bind_invoke_eq_ok {position : Nat} {f : Expr} {args : List (Passing × Expr)}
    (h : s.bind (.invoke position f args) = .ok t) : ∃ terms, s.argumentTerms args = .ok terms := by
  cases f with
  | name =>
    obtain ⟨_, -, h⟩ := bind_eq_ok.mp h
    obtain ⟨_, -, h⟩ := bind_eq_ok.mp h
    obtain ⟨terms, binds, -⟩ := bind_eq_ok.mp h
    exact ⟨terms, binds⟩
  | member =>
    obtain ⟨_, -, h⟩ := bind_eq_ok.mp h
    obtain ⟨_, -, h⟩ := bind_eq_ok.mp h
    obtain ⟨_, -, h⟩ := bind_eq_ok.mp h
    obtain ⟨terms, binds, -⟩ := bind_eq_ok.mp h
    exact ⟨terms, binds⟩
  | _ =>
    obtain ⟨_, -, h⟩ := bind_eq_ok.mp h
    simp at h

/-- An expression is accepted as a target just if it denotes a variable, and a call that is bound
has variables for its arguments by reference. What is bound and denotes none is refused in every
place that asks for one. -/
theorem targets_denote_variables (s : Scope) (e : Expr) :
    (∀ t, s.targetTerm e = .ok t ↔ s.IsVariable e t) ∧
      (∀ position f args passing t, s.bind (.invoke position f args) = .ok t →
        (passing, e) ∈ args → passing ≠ .value → ∃ u, s.IsVariable e u) ∧
      ∀ t, s.bind e = .ok t → ¬ s.IsVariable e t →
        s.targetTerm e = .error (.notAssignable .target) ∧
        (s.allowsSideEffects = true → ∀ position op value,
          s.bind (.assign position e op value) = .error (.notAssignable .target)) ∧
        ∀ position f before after passing, s.Callee f →
          (∃ terms, s.argumentTerms before = .ok terms) → passing ≠ .value →
          s.bind (.invoke position f (before ++ (passing, e) :: after)) =
            .error (.notAssignable .refArgument) := by
  refine ⟨fun t => targetTerm_eq_ok.trans isVariable_iff.symm, ?_, ?_⟩
  · intro position f args passing t calls among byRef
    obtain ⟨terms, binds⟩ := bind_invoke_eq_ok calls
    obtain ⟨u, bound, assignable⟩ := argumentTerms_assignable binds among byRef
    exact ⟨u, isVariable_iff.mpr ⟨bound, assignable⟩⟩
  · intro t bound noVariable
    have unassignable : t.isAssignable = false :=
      Bool.eq_false_iff.mpr fun assignable => noVariable (isVariable_iff.mpr ⟨bound, assignable⟩)
    refine ⟨?_, ?_, ?_⟩
    · simp only [targetTerm, bound, ok_bind, checkTarget, unassignable]
      rfl
    · intro allowed position op value
      exact bind_assign_refused allowed bound unassignable position
    · rintro position f before after passing callee ⟨terms, ready⟩ byRef
      exact callee.bind_eq (argumentTerms_refused byRef bound unassignable ready)

section Instance
open Sample

/-- A class with a method that writes a variable: `static void Reset(ref int cell);`. -/
def counter : TypeDefinition :=
  TypeDeclaration.define
    { fullName := "Counter"
      kind := .classType
      methods := [⟨"Reset", true, [], [⟨"cell", .ofPrimitive .int32, true⟩], none⟩] }
    (.typeDefinition 1)

/-- The process is suspended in `Counter.Reset`, with a local variable `int x`. -/
def counterScope : Scope :=
  { scope [] [⟨"x", type .int32⟩] with
    snapshot :=
      (Snapshot.empty.add core).add (.ofDefinitions ⟨"App", ⟨1, 0, 0, 0⟩, none, none⟩ [counter])
    frame := ⟨⟨1⟩, .named ⟨1⟩ counter [], "Reset", true, [], [⟨"x", type .int32⟩]⟩ }

/-- The call `Reset(ref e)`. -/
def resetOf (e : Expr) : Expr :=
  .invoke 0 (.name 0 "Reset" []) [(.ref, e)]

/-- `Reset(ref x)` has a variable for its argument. The literal `5` is refused in its place. -/
theorem reset_takes_variables : (∃ u, counterScope.IsVariable (.name 0 "x" []) u) ∧
    counterScope.targetTerm (.literal 0 (.integer 5)) = .error (.notAssignable .target) ∧
    counterScope.bind (resetOf (.literal 0 (.integer 5))) =
      .error (.notAssignable .refArgument) := by
  obtain ⟨call, calls⟩ : ∃ call, counterScope.bind (resetOf (.name 0 "x" [])) = .ok call :=
    ok_of_isSome (by decide +kernel)
  obtain ⟨five, bound⟩ : ∃ five, counterScope.bind (.literal 0 (.integer 5)) = .ok five :=
    ok_of_isSome (by decide +kernel)
  obtain ⟨found, finds⟩ : ∃ found, counterScope.ownMethods "Reset" [] = .ok found :=
    ok_of_isSome (by decide +kernel)
  obtain ⟨-, denoted, -⟩ := targets_denote_variables counterScope (.name 0 "x" [])
  obtain ⟨-, -, refused⟩ := targets_denote_variables counterScope (.literal 0 (.integer 5))
  obtain ⟨target, -, argument⟩ := refused five bound fun denotes => nomatch denotes.named
  exact ⟨denoted 0 _ _ .ref call calls List.mem_cons_self nofun, target,
    argument 0 _ [] [] .ref (.own finds rfl) ⟨[], rfl⟩ nofun⟩

/-- The cast `(int)x`, of a variable that is an `int`. -/
def castX : Expr :=
  .cast 0 (.keyword .int32) (.name 0 "x" [])

/-- The cast is no name, member or element, but it is taken for a target and for an argument by
reference. -/
theorem castX_accepted : castX.namesVariable = false ∧
    (∃ t, counterScope.targetTerm castX = .ok t) ∧
    ∃ t, counterScope.bind (resetOf castX) = .ok t :=
  ⟨rfl, ok_of_isSome (by decide +kernel), ok_of_isSome (by decide +kernel)⟩

end Instance

end Scope
end Bound
end DebugExpr
