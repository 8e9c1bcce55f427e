import DebugExpr.Proofs.BindingSteps
import DebugExpr.Proofs.ExprPrinter

/-! Binding does not depend on where an expression stands: at other positions it gives the same
term, or the same error but for the position that the error names. -/
namespace DebugExpr
open Source

variable {α β : Type}

/-- The same answer, or the same error of syntax at two positions. -/
inductive Coincide : Except Error α → Except Error α → Prop
  | same (x : Except Error α) : Coincide x x
  | moved (position position' : Nat) (message : String) :
    Coincide (.error (.badSyntax position message)) (.error (.badSyntax position' message))

theorem Coincide.bind {x y : Except Error α} {f g : α → Except Error β} (first : Coincide x y)
    (each : ∀ a, Coincide (f a) (g a)) : Coincide (x >>= f) (y >>= g) := by
  cases first with
  | same =>
    cases x with
    | error e => exact .same _
    | ok a => exact each a
  | moved position position' message => exact .moved position position' message

theorem Coincide.ok_iff {x y : Except Error α} (coincide : Coincide x y) {a : α} :
    x = .ok a ↔ y = .ok a := by
  cases coincide with
  | same => exact .rfl
  | moved => exact ⟨nofun, nofun⟩

namespace Bound

theorem pathNames?_bare (e : Expr) : pathNames? e.bare = pathNames? e := by
  fun_induction pathNames? e with
  | case1 => rfl
  | case2 _ target name ih => rw [Expr.bare, pathNames?, ih]
  | case3 e notName notMember =>
    cases e with
    | name _ _ typeArgs =>
      cases typeArgs with
      | nil => exact absurd rfl (notName _ _)
      | cons => rfl
    | member _ _ _ typeArgs =>
      cases typeArgs with
      | nil => exact absurd rfl (notMember _ _ _)
      | cons => rfl
    | _ => rfl

namespace Scope
variable {s : Scope}

theorem receiver_bare {target : Expr} {x y : Except Error Term} (coincide : Coincide x y) :
    Coincide (s.receiver target x) (s.receiver target.bare y) := by
  cases coincide with
  | same =>
    unfold receiver
    rw [pathNames?_bare]
    exact .same _
  | moved position position' message => exact .moved position position' message

/-- An expression is bound as it is without positions. -/
theorem bind_bare (e : Expr) : Coincide (s.bind e) (s.bind e.bare) := by
  refine bind.induct s (motive_1 := fun e => Coincide (s.bind e) (s.bind e.bare))
    (motive_2 := fun type indices =>
      Coincide (s.indexTerms type indices) (s.indexTerms type (Expr.bareAll indices)))
    (motive_3 := fun args =>
      Coincide (s.argumentTerms args) (s.argumentTerms (Expr.bareArgs args)))
    ?name ?global ?literal ?this ?member ?invokeName ?invokeMember ?invokeOther ?index ?cast
    ?negateLiteral ?negate ?binary ?coalesce ?refused ?assign ?noArguments ?argument ?noIndices
    ?indices e
  case name => exact fun _ name typeArgs => .same (s.nameTerm name typeArgs)
  case global => exact fun _ name => .same (.error (.undefinedGlobalName name))
  case literal => exact fun _ value => .same (s.literalTerm value)
  case this =>
    intro position
    simp only [Expr.bare, bind, thisTerm]
    split
    · exact .moved position 0 _
    · exact .same _
  case member =>
    intro _ target name typeArgs ih
    exact (receiver_bare ih).bind fun _ => .same _
  case invokeName =>
    intro _ _ name typeArgs args ih
    exact (Coincide.same _).bind fun _ => (Coincide.same _).bind fun _ => ih.bind fun _ => .same _
  case invokeMember =>
    intro _ _ target name typeArgs args ihTarget ihArgs
    exact (receiver_bare ihTarget).bind fun _ => (Coincide.same _).bind fun _ =>
      (Coincide.same _).bind fun _ => ihArgs.bind fun _ => .same _
  case invokeOther =>
    intro _ target args notName notMember ih
    rw [Expr.bare, bind.eq_8 _ _ _ _ notName notMember, bind.eq_8]
    · exact ih.bind fun _ => .same _
    · intro _ _ _ same
      cases target with
      | name => exact notName _ _ _ rfl
      | _ => cases same
    · intro _ _ _ _ same
      cases target with
      | member => exact notMember _ _ _ _ rfl
      | _ => cases same
  case index =>
    intro _ target indices ih ihIndices
    rw [Expr.bare, bind, bind, Expr.bareAll_eq, List.length_map, ← Expr.bareAll_eq]
    exact ih.bind fun _ => (Coincide.same _).bind fun _ => (Coincide.same _).bind fun int =>
      (ihIndices int).bind fun _ => .same _
  case cast =>
    intro _ type operand ih
    exact (Coincide.same _).bind fun _ => ih.bind fun _ => .same _
  case negateLiteral => exact fun _ _ value => .same (s.negatedLiteral value.toNat)
  case negate =>
    intro _ operand notLiteral ih
    rw [Expr.bare, bind, bind]
    · exact ih.bind fun _ => .same _
    · intro _ _ same
      cases operand with
      | literal =>
        obtain ⟨-, rfl⟩ := Expr.literal.inj same
        exact notLiteral _ _ rfl
      | _ => cases same
    · exact notLiteral
  case binary =>
    intro _ op left right ihLeft ihRight
    exact ihLeft.bind fun _ => (Coincide.same _).bind fun _ => ihRight.bind fun _ => .same _
  case coalesce =>
    intro _ left right ihLeft ihRight
    exact ihLeft.bind fun _ => ihRight.bind fun _ => .same _
  case refused =>
    intro _ target op value refused _ _
    simp only [Expr.bare, bind, refused, if_true]
    exact .same (.error .sideEffectsNotAllowed)
  case assign =>
    intro _ target op value allowed ihTarget ihValue
    simp only [Expr.bare, bind, allowed, Bool.false_eq_true, if_false]
    exact ihTarget.bind fun _ => (Coincide.same _).bind fun _ => ihValue.bind fun _ => .same _
  case noArguments => exact .same _
  case argument =>
    intro passing expr rest ih ihRest
    exact ih.bind fun _ => (Coincide.same _).bind fun _ => ihRest.bind fun _ => .same _
  case noIndices => exact fun _ => .same _
  case indices =>
    intro type expr rest ih ihRest
    exact ih.bind fun _ => (Coincide.same _).bind fun _ => ihRest.bind fun _ => .same _

/-- Expressions that are the same but for positions are bound to the same terms. -/
theorem bind_eq_ok_of_bare {e e' : Expr} (same : e.bare = e'.bare) {t : Term} :
    s.bind e = .ok t ↔ s.bind e' = .ok t := by
  rw [(bind_bare e).ok_iff, same, (bind_bare e').ok_iff]

end Scope

end Bound

end DebugExpr
