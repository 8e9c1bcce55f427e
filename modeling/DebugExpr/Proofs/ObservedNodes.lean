import DebugExpr.Proofs.BindingSteps
import DebugExpr.Proofs.Subterms

/-! What binding does to the nodes of terms. An observation of nodes that overlooks the plain ones,
which only compute or name something, sees the same in order before a step of binding and behind it,
and sees the node that the step adds where that is not plain. -/
namespace DebugExpr.Bound
open Metadata Source

variable {α : Type} {f : Term → Option α}

namespace Term

/-- The node is no call and no assignment, and is not `this`. -/
def isPlain : Term → Bool
  | this _ | call .. | assign .. | compound .. => false
  | _ => true

/-- The observation sees nothing in plain nodes. -/
def Overlooks (f : Term → Option α) : Prop :=
  ∀ t, t.isPlain = true → f t = none

/-- What the observation sees in the nodes of a term, in the order of evaluation. -/
def yields (f : Term → Option α) (t : Term) : List α :=
  t.postorder.filterMap f

theorem yields_eq (f : Term → Option α) (t : Term) :
    t.yields f = t.parts.flatMap (yields f) ++ (f t).toList :=
  t.filterMap_postorder f

theorem yields_of_plain (overlooks : Overlooks f) {t : Term} (plain : t.isPlain = true) :
    t.yields f = t.parts.flatMap (yields f) := by
  rw [yields_eq, overlooks t plain, Option.toList_none, List.append_nil]

end Term

open Term

namespace Scope
variable {s : Scope} {t t' left right operand target value : Term} {type wanted : ClosedType}
  {explicit : Bool} (overlooks : Overlooks f)

include overlooks in
theorem integerTerm_yields {n : Int} {p : Primitive} (h : s.integerTerm n p = .ok t) :
    t.yields f = [] := by
  obtain ⟨type, -, h⟩ := bind_eq_ok.mp h
  split at h
  · obtain rfl := pure_eq_ok.mp h
    exact yields_of_plain overlooks rfl
  · obtain rfl := pure_eq_ok.mp h
    exact yields_of_plain overlooks rfl

include overlooks in
theorem literalTerm_yields {literal : Literal} (h : s.literalTerm literal = .ok t) :
    t.yields f = [] := by
  rcases literalTerm_eq_ok h with rfl | ⟨value, type, -, rfl⟩ | ⟨value, type, -, rfl⟩ | ⟨n, h⟩
  · exact yields_of_plain overlooks rfl
  · exact yields_of_plain overlooks rfl
  · exact yields_of_plain overlooks rfl
  · exact integerTerm_yields overlooks h

include overlooks in
theorem negatedLiteral_yields {n : Nat} (h : s.negatedLiteral n = .ok t) : t.yields f = [] := by
  obtain ⟨p, -, h⟩ := negatedLiteral_eq_ok h
  exact integerTerm_yields overlooks h

include overlooks in
theorem integerValue?_yields {n : Int} (h : integerValue? t = some n) : t.yields f = [] := by
  unfold integerValue? at h
  split at h
  · exact yields_of_plain overlooks rfl
  · exact yields_of_plain overlooks rfl
  · cases h

include overlooks in
/-- A constant, which may be made anew, shows nothing. -/
theorem Converted.yields_eq (converted : s.Converted t wanted explicit t') :
    t'.yields f = t.yields f := by
  cases converted with
  | refit refits =>
    obtain ⟨n, p, isConstant, -, -, makes⟩ := refit_eq_some refits
    rw [integerTerm_yields overlooks makes, integerValue?_yields overlooks isConstant]
  | same => rfl
  | via => simp [yields_of_plain overlooks (t := .conversion ..) rfl, Term.parts]

include overlooks in
theorem promote_yields (h : s.promote t = .ok t') : t'.yields f = t.yields f := by
  rcases promote_eq_ok h with ⟨int, -, converts⟩ | ⟨-, rfl⟩
  · exact (convert_eq_ok converts).yields_eq overlooks
  · rfl

include overlooks in
theorem negate_yields (h : s.negate operand = .ok t) : t.yields f = operand.yields f := by
  obtain ⟨promoted, promotes, -, rfl⟩ := negate_eq_ok h
  rw [← promote_yields overlooks promotes]
  simp [yields_of_plain overlooks (t := .negate _) rfl, Term.parts]

include overlooks in
theorem arithmetic_yields {op : BinaryOp} (h : s.arithmetic op left right = .ok t) :
    t.yields f = left.yields f ++ right.yields f := by
  obtain ⟨leftType, rightType, -, -, -, -, made⟩ := arithmetic_eq_ok h
  rcases made with ⟨-, rfl⟩ | ⟨left', converts, rfl⟩ | ⟨right', converts, rfl⟩
  · simp [yields_of_plain overlooks (t := .binary ..) rfl, Term.parts]
  · rw [← (convert?_eq_some converts).yields_eq overlooks]
    simp [yields_of_plain overlooks (t := .binary ..) rfl, Term.parts]
  · rw [← (convert?_eq_some converts).yields_eq overlooks]
    simp [yields_of_plain overlooks (t := .binary ..) rfl, Term.parts]

include overlooks in
theorem coalesceTerm_yields (h : s.coalesceTerm left right = .ok t) :
    t.yields f = left.yields f ++ right.yields f := by
  obtain ⟨leftType, -, -, made⟩ := coalesceTerm_eq_ok h
  rcases made with ⟨right', converts, rfl⟩ | ⟨rightType, left', -, converts, rfl⟩
  · rw [← (convert?_eq_some converts).yields_eq overlooks]
    simp [yields_of_plain overlooks (t := .coalesce ..) rfl, Term.parts]
  · rw [← (convert_eq_ok converts).yields_eq overlooks]
    simp [yields_of_plain overlooks (t := .coalesce ..) rfl, Term.parts]

include overlooks in
/-- An assignment shows itself behind its target and its value. -/
theorem assign_yields {op : Option BinaryOp} (h : s.assign target op value = .ok t) :
    t.yields f = target.yields f ++ value.yields f ++ (f t).toList := by
  obtain ⟨type, value', -, converts, made⟩ := assign_eq_ok h
  rw [← (convert_eq_ok converts).yields_eq overlooks, Term.yields_eq]
  rcases made with ⟨-, rfl⟩ | ⟨operator, -, -, rfl⟩
  · simp [Term.parts]
  · simp [Term.parts]

include overlooks in
theorem access_yields {receiver : Option Term} {m : MemberRef}
    (made : t = .field receiver m ∨ t = .property receiver m) :
    t.yields f = receiver.toList.flatMap (yields f) := by
  rcases made with rfl | rfl <;> exact yields_of_plain overlooks rfl

include overlooks in
/-- A simple name shows nothing but the receiver of a member of the frame. -/
theorem named_yields {name : String} (named : s.Named name t) :
    t.yields f = [] ∨ t.yields f = s.this.yields f ∧ s.frame.isStatic = false := by
  cases named with
  | localVar | parameter | pseudo => exact .inl (yields_of_plain overlooks rfl)
  | member _ own =>
    obtain ⟨m, receiver, own, made⟩ := ownMember?_eq_some own
    obtain ⟨-, isThis⟩ := ownReceiver?_eq_some own
    rw [access_yields overlooks (made.imp And.right And.right)]
    cases receiver with
    | none => exact .inl rfl
    | some r =>
      obtain ⟨rfl, instance'⟩ := isThis r rfl
      exact .inr ⟨by simp, instance'⟩

include overlooks in
/-- Fitting keeps how an argument is passed and what it shows. -/
theorem fitArguments_yields {declaring : ClosedType} {methodArgs : List ClosedType}
    {params : List Parameter} {args : List (Bool × Term)}
    {fitted : List ((ClosedType × Bool) × (Bool × Term))} (count : params.length = args.length)
    (h : s.fitArguments declaring methodArgs params args = .ok (some fitted)) :
    fitted.map (·.2.1) = args.map (·.1) ∧
      fitted.flatMap (·.2.2.yields f) = args.flatMap (·.2.yields f) := by
  induction params generalizing args fitted with
  | nil =>
    obtain rfl : [] = args := (List.eq_nil_of_length_eq_zero count.symm).symm
    obtain rfl : [] = fitted := by simpa [fitArguments] using h
    exact ⟨rfl, rfl⟩
  | cons p params ih =>
    cases args with
    | nil => simp at count
    | cons arg args =>
      obtain ⟨type, -, h⟩ := bind_eq_ok.mp h
      obtain ⟨term?, fits, h⟩ := bind_eq_ok.mp h
      cases term? with
      | none => simp at h
      | some term =>
        obtain ⟨rest?, fitsRest, h⟩ := bind_eq_ok.mp h
        cases rest? with
        | none => simp at h
        | some rest =>
          obtain rfl := Option.some.inj (pure_eq_ok.mp h)
          obtain ⟨passings, same⟩ := ih (Nat.succ.inj count) fitsRest
          have first : term.yields f = arg.2.yields f := by
            rcases fitArgument_eq_some fits with ⟨-, rfl, -⟩ | ⟨-, converts⟩
            · rfl
            · exact (convert?_eq_some converts).yields_eq overlooks
          simp [passings, same, first]

include overlooks in
/-- A call shows itself behind its arguments and its receiver, which it keeps unless the method is
static. -/
theorem callOf_yields {name : String} {site : CallSite} {methods : List Method}
    (h : s.callOf name site methods = .ok t) :
    ∃ receiver m args, t = .call receiver m args ∧
      (receiver = none ∨ receiver = site.receiver) ∧ (∃ found ∈ methods, m.name = found.name) ∧
      args.map (·.1) = site.args.map (·.1) ∧
      t.yields f = receiver.toList.flatMap (yields f) ++ site.args.flatMap (·.2.yields f) ++
        (f t).toList := by
  obtain ⟨m, member, h⟩ := callOf_eq_ok h
  obtain ⟨count, -, methodArgs, fitted, returns, -, fits, -, rfl⟩ := callOf?_eq_some h
  obtain ⟨passings, same⟩ := fitArguments_yields overlooks count fits
  refine ⟨_, _, _, rfl, by split <;> simp, ⟨m, member, rfl⟩, ?_, ?_⟩
  · rw [← passings, List.map_map]
    rfl
  · rw [Term.yields_eq, ← same]
    simp [Term.parts, List.flatMap_map]

/-- A receiver that a member keeps is the term that stands before the dot. -/
theorem kept_bound {expr : Expr} {bound : Except Error Term} {before : Receiver} {name : String}
    {given kept : Option Term} (h : s.receiver expr bound = .ok before)
    (named : receiverType name before = .ok (given, type)) (keeps : kept = none ∨ kept = given) :
    kept = none ∨ ∃ u, kept = some u ∧ bound = .ok u := by
  cases kept with
  | none => exact .inl rfl
  | some r =>
    obtain rfl : some r = given := by simpa using keeps
    obtain ⟨-, isNone⟩ | ⟨u, rfl, -, isSome⟩ := receiverType_eq_ok named
    · cases isNone
    · cases isSome
      obtain ⟨bound⟩ := receiver_eq_ok (fun u bound => bound) h
      exact .inr ⟨r, rfl, bound⟩

theorem keepReceiver_eq_or {isStatic : Bool} {before after : Option Term}
    (h : keepReceiver before isStatic = some after) : after = none ∨ after = before := by
  obtain ⟨-, kept⟩ := keepReceiver_eq_some h
  cases after with
  | none => exact .inl rfl
  | some r => exact .inr (kept r rfl).symm

end Scope

end DebugExpr.Bound
