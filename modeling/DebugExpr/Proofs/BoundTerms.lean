import DebugExpr.Proofs.BindingInduction
import DebugExpr.Proofs.HeldTypes
import DebugExpr.Proofs.Subterms

/-! What binding guarantees of a term. Every node keeps a receiver just where its member has one,
has as many arguments as its method has parameters, converts only between types that exist, and
writes only to variables. The guarantee is on single nodes, so it holds of a term when it holds of
all subterms. -/
namespace DebugExpr.Metadata.ClosedType

mutual

theorem same_refl : (t : ClosedType) → same t t = true
  | .named _ _ args => by simp [same, sameAll_refl args]
  | .array element _ => by simp [same, same_refl element]

theorem sameAll_refl : (ts : List ClosedType) → sameAll ts ts = true
  | [] => rfl
  | t :: rest => by simp [sameAll, same_refl t, sameAll_refl rest]

end

mutual

theorem same_symm : (t u : ClosedType) → same t u = same u t
  | .named home d args, .named home' d' args' => by
    simp only [same, sameAll_symm args args', BEq.comm (a := home), BEq.comm (a := d.token)]
  | .array element rank, .array element' rank' => by
    simp only [same, same_symm element element', BEq.comm (a := rank)]
  | .named .., .array .. | .array .., .named .. => rfl

theorem sameAll_symm : (ts us : List ClosedType) → sameAll ts us = sameAll us ts
  | [], [] | [], _ :: _ | _ :: _, [] => rfl
  | t :: ts, u :: us => by simp only [sameAll, same_symm t u, sameAll_symm ts us]

end

@[simp]
theorem beq_refl (t : ClosedType) : (t == t) = true :=
  same_refl t

theorem beq_symm {t u : ClosedType} (h : (t == u) = true) : (u == t) = true :=
  (same_symm u t).trans h

end DebugExpr.Metadata.ClosedType

namespace DebugExpr.Bound
open Metadata Source

/-- An integer in the form in which constants of a type hold it. -/
def Constant.integer (p : Primitive) (value : Int) : Constant :=
  if p = .int64 ∨ p = .uint64 then .int64 (Int64.ofInt value) else .int32 (Int32.ofInt value)

/-- The conversion takes a term of the source type to the target type. -/
def Conversion.Applies : Conversion → Option ClosedType → ClosedType → Prop
  | nullLiteral, source, target => source = none ∧ target.isReferenceType = true
  | implicitReference, source, target | explicitReference, source, target =>
    ∃ type, source = some type ∧ type.isReferenceType = true ∧ target.isReferenceType = true
  | boxing, source, target =>
    ∃ type, source = some type ∧ type.isValueType = true ∧ target.isReferenceType = true
  | unboxing, source, target =>
    ∃ type, source = some type ∧ type.isReferenceType = true ∧ target.isValueType = true
  | numeric p, source, target =>
    ∃ type q, source = some type ∧ numeric? type = some q ∧ numeric? target = some p

/-- Only the null literal, or what is taken for it, has no type. -/
theorem Conversion.Applies.typed {kind : Conversion} {source : Option ClosedType}
    {target : ClosedType} (applies : kind.Applies source target) (other : kind ≠ .nullLiteral) :
    source.isSome := by
  cases kind with
  | nullLiteral => exact absurd rfl other
  | implicitReference | boxing | unboxing | explicitReference =>
    obtain ⟨type, rfl, -⟩ := applies
    rfl
  | numeric =>
    obtain ⟨type, q, rfl, -⟩ := applies
    rfl

namespace Scope

/-- A term of the first type is what a conversion to the second one answers: the types are equal, or
it is an integer constant of the built-in type that the second one is marked as. -/
def Stands (s : Scope) (found wanted : ClosedType) : Prop :=
  (found == wanted) = true ∨
    ∃ p, wanted.primitive? = some p ∧ s.snapshot.primitive p = .ok found

/-- A term that stands for one of the type. -/
def Yields (s : Scope) (t : Term) (wanted : ClosedType) : Prop :=
  ∃ found, t.type? = some found ∧ s.Stands found wanted

/-- A type that promotion leaves: one of the small integral types only where `int` is one. -/
def Promoted (s : Scope) (type : ClosedType) : Prop :=
  ∀ p, numeric? type = some p → isPromoted p = true →
    ∃ int, s.snapshot.primitive .int32 = .ok int ∧ s.Stands type int

end Scope

/-- What binding guarantees of a single node. -/
def Term.Formed (s : Scope) : Term → Prop
  | .constant (.bool _) _ | .constant (.string _) _ => True
  | .constant value type =>
    ∃ p n, inRange p n = true ∧ value = .integer p n ∧ s.snapshot.primitive p = .ok type
  | .localVar index type => ∃ slot, s.frame.locals[index]? = some slot ∧ slot.type = type
  | .parameter index byRef type =>
    ∃ i slot, index = i + (if s.frame.isStatic then 0 else 1) ∧
      s.frame.parameters[i]? = some slot ∧ slot.type = type ∧ slot.byRef = byRef
  | .pseudo o => o.assignable = o.hasStorage
  | .field receiver m | .property receiver m =>
    receiver.isNone = m.isStatic ∧ ∀ r ∈ receiver, r.type?.isSome
  | .call receiver m args =>
    receiver.isNone = m.isStatic ∧ (∀ r ∈ receiver, r.type?.isSome) ∧
      args.length = m.params.length ∧
      ∀ arg ∈ args, arg.2.type?.isSome ∧ (arg.1 = true → arg.2.isAssignable = true)
  | .element array indices type =>
    array.type? = some (.array type indices.length) ∧ ∀ index ∈ indices, index.type?.isSome
  | .conversion kind operand type => kind.Applies operand.type? type
  | .negate operand =>
    ∃ type p, operand.type? = some type ∧ numeric? type = some p ∧ p.isUnsigned = false ∧
      s.Promoted type
  | .binary _ left right type =>
    s.Yields left type ∧ s.Yields right type ∧ (numeric? type).isSome ∧ s.Promoted type
  | .coalesce left right type => s.Yields left type ∧ s.Yields right type
  | .assign target value type =>
    target.isAssignable = true ∧ target.type? = some type ∧ s.Yields value type ∧
      s.allowsSideEffects = true
  | .compound _ target value type =>
    target.isAssignable = true ∧ target.type? = some type ∧ s.Yields value type ∧
      s.allowsSideEffects = true ∧ (numeric? type).isSome
  | .null | .this _ => True

/-- What binding guarantees of a term. -/
abbrev Term.WellFormed (s : Scope) : Term → Prop :=
  Term.All (Term.Formed s)

theorem Term.hasValue_of_typed {t : Term} (typed : t.type?.isSome) : t.hasValue = true := by
  simp [Term.hasValue, typed]

namespace Scope
variable {s : Scope} {t t' left right operand target value array : Term}
  {type source wanted : ClosedType} {p : Primitive} {explicit : Bool}

theorem Stands.refl : s.Stands type type :=
  .inl type.beq_refl

theorem integerTerm_wellFormed {n : Int} (range : inRange p n = true)
    (h : s.integerTerm n p = .ok t) :
    t.WellFormed s ∧ ∃ type, t.type? = some type ∧ s.snapshot.primitive p = .ok type := by
  obtain ⟨type, named, made⟩ := bind_eq_ok.mp h
  by_cases wide : p = .int64 ∨ p = .uint64
  · simp only [wide, if_true, pure_eq_ok] at made
    subst made
    exact ⟨.leaf ⟨p, n, range, by simp [Constant.integer, wide], named⟩ rfl, type, rfl, named⟩
  · simp only [wide, if_false, pure_eq_ok] at made
    subst made
    exact ⟨.leaf ⟨p, n, range, by simp [Constant.integer, wide], named⟩ rfl, type, rfl, named⟩

theorem refit_wellFormed (h : s.refit t wanted = .ok (some t')) :
    t'.WellFormed s ∧ s.Yields t' wanted := by
  obtain ⟨n, p, -, marked, range, h⟩ := refit_eq_some h
  obtain ⟨formed, type, typed, named⟩ := integerTerm_wellFormed range h
  exact ⟨formed, type, typed, .inr ⟨p, marked, named⟩⟩

theorem convertible_applies {kind : Conversion} {found : Option ClosedType}
    (h : s.convertible found wanted explicit = .ok (.via kind)) : kind.Applies found wanted := by
  unfold convertible at h
  split at h
  · cases reference : wanted.isReferenceType <;> simp [Convertible.when, reference] at h
    subst h
    exact ⟨rfl, reference⟩
  · rename_i source
    split at h
    · simp at h
    · split at h
      · rename_i narrow wide isNarrow isWide
        have := when_eq (explicit || (widenings narrow).contains wide) (.numeric wide)
        obtain rfl : kind = .numeric wide := by simp_all
        exact ⟨source, narrow, rfl, isNarrow, isWide⟩
      · split at h
        · rename_i value
          obtain ⟨reference, rfl⟩ : wanted.isReferenceType = true ∧ kind = .boxing := by
            simpa using convertibleValue_eq h
          exact ⟨source, rfl, value, reference⟩
        · rename_i reference
          have reference : source.isReferenceType = true := by
            simpa [ClosedType.isReferenceType] using reference
          split at h
          · rename_i wantedReference
            rcases convertibleReference_eq h with h | h | h <;> cases h
            · exact ⟨source, rfl, reference, wantedReference⟩
            · exact ⟨source, rfl, reference, wantedReference⟩
          · rename_i value
            obtain rfl : kind = .unboxing := by simpa using convertibleBoxed_eq h
            exact ⟨source, rfl, reference, by simpa [ClosedType.isReferenceType] using value⟩

theorem Converted.wellFormed (converted : s.Converted t wanted explicit t')
    (formed : t.WellFormed s) : t'.WellFormed s ∧ s.Yields t' wanted := by
  cases converted with
  | refit refits => exact refit_wellFormed refits
  | same typed same => exact ⟨formed, _, typed, .inl same⟩
  | via converts =>
    exact ⟨Term.all_iff.mpr ⟨convertible_applies converts, by simpa [Term.parts] using formed⟩,
      wanted, rfl, .refl⟩

theorem convert?_wellFormed (formed : t.WellFormed s)
    (h : s.convert? t wanted explicit = .ok (some t')) :
    t'.WellFormed s ∧ s.Yields t' wanted :=
  (convert?_eq_some h).wellFormed formed

theorem convert_wellFormed (formed : t.WellFormed s) (h : s.convert t wanted explicit = .ok t') :
    t'.WellFormed s ∧ s.Yields t' wanted :=
  (convert_eq_ok h).wellFormed formed

theorem promote_wellFormed (formed : t.WellFormed s) (h : s.promote t = .ok t') :
    t'.WellFormed s ∧ ∀ type, t'.type? = some type → s.Promoted type := by
  rcases promote_eq_ok h with ⟨int, named, h⟩ | ⟨notSmall, rfl⟩
  · obtain ⟨formed, found, typed, stands⟩ := convert_wellFormed formed h
    refine ⟨formed, fun type typed' p _ _ => ⟨int, named, ?_⟩⟩
    rwa [← Option.some.inj (typed.symm.trans typed')]
  · refine ⟨formed, fun type typed p numeric small => ?_⟩
    simp [typed, numeric, small] at notSmall

theorem negate_wellFormed (formed : t.WellFormed s) (h : s.negate t = .ok t') :
    t'.WellFormed s := by
  obtain ⟨operand, promotes, signed, rfl⟩ := negate_eq_ok h
  obtain ⟨formed, promoted⟩ := promote_wellFormed formed promotes
  simp only [Option.any_eq_true, Option.bind_eq_some_iff, Bool.not_eq_true'] at signed
  obtain ⟨p, ⟨type, typed, numeric⟩, signed⟩ := signed
  exact Term.all_iff.mpr ⟨⟨type, p, typed, numeric, signed, promoted type typed⟩,
    by simpa [Term.parts] using formed⟩

theorem binary_wellFormed {op : BinaryOp} (formedLeft : t.WellFormed s)
    (formedRight : t'.WellFormed s) (yieldsLeft : s.Yields t type) (yieldsRight : s.Yields t' type)
    (numeric : (numeric? type).isSome) (promoted : s.Promoted type) :
    (Term.binary op t t' type).WellFormed s :=
  Term.all_iff.mpr ⟨⟨yieldsLeft, yieldsRight, numeric, promoted⟩,
    by simpa [Term.parts] using ⟨formedLeft, formedRight⟩⟩

theorem arithmetic_wellFormed {op : BinaryOp} (formedLeft : left.WellFormed s)
    (formedRight : right.WellFormed s)
    (promotedLeft : ∀ type, left.type? = some type → s.Promoted type)
    (promotedRight : ∀ type, right.type? = some type → s.Promoted type)
    (h : s.arithmetic op left right = .ok t) : t.WellFormed s := by
  obtain ⟨leftType, rightType, typedLeft, typedRight, numericLeft, numericRight, made⟩ :=
    arithmetic_eq_ok h
  have promotedLeft := promotedLeft leftType typedLeft
  have promotedRight := promotedRight rightType typedRight
  rcases made with ⟨same, rfl⟩ | ⟨left', converts, rfl⟩ | ⟨right', converts, rfl⟩
  · exact binary_wellFormed formedLeft formedRight ⟨leftType, typedLeft, .refl⟩
      ⟨rightType, typedRight, .inl (ClosedType.beq_symm same)⟩ numericLeft promotedLeft
  · obtain ⟨formedLeft, yieldsLeft⟩ := convert?_wellFormed formedLeft converts
    exact binary_wellFormed formedLeft formedRight yieldsLeft ⟨rightType, typedRight, .refl⟩
      numericRight promotedRight
  · obtain ⟨formedRight, yieldsRight⟩ := convert?_wellFormed formedRight converts
    exact binary_wellFormed formedLeft formedRight ⟨leftType, typedLeft, .refl⟩ yieldsRight
      numericLeft promotedLeft

theorem coalesceTerm_wellFormed (formedLeft : left.WellFormed s) (formedRight : right.WellFormed s)
    (h : s.coalesceTerm left right = .ok t) : t.WellFormed s := by
  obtain ⟨leftType, typedLeft, -, made⟩ := coalesceTerm_eq_ok h
  rcases made with ⟨right', converts, rfl⟩ | ⟨rightType, left', typedRight, converts, rfl⟩
  · obtain ⟨formedRight, yieldsRight⟩ := convert?_wellFormed formedRight converts
    exact Term.all_iff.mpr ⟨⟨⟨leftType, typedLeft, .refl⟩, yieldsRight⟩,
      by simpa [Term.parts] using ⟨formedLeft, formedRight⟩⟩
  · obtain ⟨formedLeft, yieldsLeft⟩ := convert_wellFormed formedLeft converts
    exact Term.all_iff.mpr ⟨⟨yieldsLeft, rightType, typedRight, .refl⟩,
      by simpa [Term.parts] using ⟨formedLeft, formedRight⟩⟩

theorem assign_wellFormed {op : Option BinaryOp} (formedTarget : target.WellFormed s)
    (assignable : target.isAssignable = true) (allowed : s.allowsSideEffects = true)
    (formedValue : value.WellFormed s) (h : s.assign target op value = .ok t) :
    t.WellFormed s := by
  obtain ⟨type, value', typed, converts, made⟩ := assign_eq_ok h
  obtain ⟨formedValue, yields⟩ := convert_wellFormed formedValue converts
  rcases made with ⟨-, rfl⟩ | ⟨operator, -, numeric, rfl⟩
  · exact Term.all_iff.mpr ⟨⟨assignable, typed, yields, allowed⟩,
      by simpa [Term.parts] using ⟨formedTarget, formedValue⟩⟩
  · exact Term.all_iff.mpr ⟨⟨assignable, typed, yields, allowed, numeric⟩,
      by simpa [Term.parts] using ⟨formedTarget, formedValue⟩⟩

theorem literalType_inRange (value : Nat) (fits : value < UInt64.size) :
    inRange (literalType value) value = true := by
  unfold literalType
  split
  · assumption
  · split
    · assumption
    · split
      · assumption
      · simp only [inRange, valueRange?, Option.any_some, Bool.and_eq_true, decide_eq_true_eq]
        simp only [UInt64.size] at fits
        omega

theorem literalTerm_wellFormed {literal : Literal} (h : s.literalTerm literal = .ok t) :
    t.WellFormed s := by
  rcases literalTerm_eq_ok h with rfl | ⟨value, type, -, rfl⟩ | ⟨value, type, -, rfl⟩ | ⟨n, h⟩
  · exact .leaf trivial rfl
  · exact .leaf trivial rfl
  · exact .leaf trivial rfl
  · exact (integerTerm_wellFormed (literalType_inRange _ n.toNat_lt) h).1

theorem negatedLiteral_wellFormed {n : Nat} (h : s.negatedLiteral n = .ok t) : t.WellFormed s := by
  obtain ⟨p, range, h⟩ := negatedLiteral_eq_ok h
  exact (integerTerm_wellFormed range h).1

end Scope

/-- Just the declared variables have storage. -/
theorem pseudo_storage {r : QualifiedName.Resolver} {context : Pseudo.Context} {lexeme : String}
    {o : Pseudo.Occurrence} (h : Pseudo.bind r context lexeme = .ok (some o)) :
    o.assignable = o.hasStorage := by
  unfold Pseudo.bind at h
  split at h
  · unfold Pseudo.bindDeclared at h
    split at h
    · simp at h
    · obtain ⟨type, -, h⟩ := bind_eq_ok.mp h
      obtain rfl := Option.some.inj (pure_eq_ok.mp h)
      rfl
  · split at h
    · obtain ⟨accessorType, -, h⟩ := bind_eq_ok.mp h
      split at h
      all_goals
        obtain ⟨type, -, h⟩ := bind_eq_ok.mp h
        obtain ⟨call, reads, rfl⟩ := Option.map_eq_some_iff.mp (pure_eq_ok.mp h)
        exact (Pseudo.ofKind?_eq_some reads).2.symm
    · simp at h

namespace Scope
variable {s : Scope} {t t' left right operand target value array : Term}
  {type source wanted : ClosedType} {p : Primitive} {explicit : Bool}

theorem this_wellFormed : s.this.WellFormed s :=
  .leaf trivial rfl

/-- A field or property with a receiver just where it has to have one. -/
theorem access_wellFormed {m : MemberRef} {receiver : Option Term}
    (static : receiver.isNone = m.isStatic)
    (below : ∀ r ∈ receiver, r.WellFormed s ∧ r.type?.isSome)
    (made : t = .field receiver m ∨ t = .property receiver m) : t.WellFormed s := by
  have formed : ∀ r ∈ receiver, r.WellFormed s := fun r member => (below r member).1
  have typed : ∀ r ∈ receiver, r.type?.isSome := fun r member => (below r member).2
  rcases made with rfl | rfl
  · exact Term.all_iff.mpr ⟨⟨static, typed⟩, by simpa [Term.parts] using formed⟩
  · exact Term.all_iff.mpr ⟨⟨static, typed⟩, by simpa [Term.parts] using formed⟩

theorem named_wellFormed {name : String} (named : s.Named name t) : t.WellFormed s := by
  cases named with
  | localVar found => exact .leaf ⟨_, Frame.local?_slot found, rfl⟩ rfl
  | parameter found =>
    obtain ⟨i, position, found⟩ := Frame.parameter?_slot found
    exact .leaf ⟨i, _, position, found, rfl, rfl⟩ rfl
  | member _ own =>
    obtain ⟨m, receiver, own, made⟩ := ownMember?_eq_some own
    obtain ⟨static, own⟩ := ownReceiver?_eq_some own
    refine access_wellFormed static (fun r member => ?_) (made.imp And.right And.right)
    rw [(own r member).1]
    exact ⟨this_wellFormed, rfl⟩
  | pseudo binds => exact .leaf (pseudo_storage binds) rfl

theorem receiverType_wellFormed {name : String} {receiver : Receiver} {found : Option Term}
    (before : s.Before (Term.WellFormed s) receiver)
    (h : receiverType name receiver = .ok (found, type)) :
    ∀ r ∈ found, r.WellFormed s ∧ r.type?.isSome := by
  rcases receiverType_eq_ok h with ⟨-, rfl⟩ | ⟨term, rfl, typed, rfl⟩
  · simp
  · cases before with
    | value formed =>
      rintro r ⟨⟩
      exact ⟨formed, by simp [typed]⟩

theorem memberTerm_wellFormed {receiver : Receiver} {name : String} {typeArgs : List TypeExpr}
    (before : s.Before (Term.WellFormed s) receiver)
    (h : s.memberTerm receiver name typeArgs = .ok t) : t.WellFormed s := by
  obtain ⟨value, type, m, kept, named, keeps, made⟩ := memberTerm_eq_ok h
  have below := receiverType_wellFormed before named
  obtain ⟨static, kept⟩ := keepReceiver_eq_some keeps
  exact access_wellFormed static (fun r member => below r (kept r member))
    (made.imp And.right And.right)

/-- An argument that is fitted to a parameter. -/
theorem fitArgument_wellFormed {byRef : Bool} {arg : Bool × Term} (formed : arg.2.WellFormed s)
    (assignable : arg.1 = true → arg.2.isAssignable = true)
    (h : s.fitArgument byRef type arg = .ok (some t)) :
    t.WellFormed s ∧ t.type?.isSome ∧ (arg.1 = true → t.isAssignable = true) := by
  rcases fitArgument_eq_some h with ⟨-, rfl, found, typed, -⟩ | ⟨byValue, converts⟩
  · exact ⟨formed, by simp [typed], assignable⟩
  · obtain ⟨formed, found, typed, -⟩ := convert?_wellFormed formed converts
    exact ⟨formed, by simp [typed], by simp [byValue]⟩

theorem callOf_wellFormed {name : String} {site : CallSite} {methods : List Method}
    (receiver : ∀ r ∈ site.receiver, r.WellFormed s ∧ r.type?.isSome)
    (args : ∀ arg ∈ site.args, arg.2.WellFormed s ∧ (arg.1 = true → arg.2.isAssignable = true))
    (h : s.callOf name site methods = .ok t) : t.WellFormed s := by
  obtain ⟨m, -, h⟩ := callOf_eq_ok h
  obtain ⟨-, needs, methodArgs, fitted, returns, -, fits, -, rfl⟩ := callOf?_eq_some h
  have fitted : ∀ x ∈ fitted, x.2.2.WellFormed s ∧ x.2.2.type?.isSome ∧
      (x.2.1 = true → x.2.2.isAssignable = true) := by
    intro x member
    obtain ⟨p, -, arg, isArg, -, passing, -, fits⟩ := fitArguments_eq_some fits x member
    rw [passing]
    exact fitArgument_wellFormed (args arg isArg).1 (args arg isArg).2 fits
  have kept : ∀ r ∈ (if m.isStatic then none else site.receiver),
      r.WellFormed s ∧ r.type?.isSome := by
    intro r member
    split at member
    · simp at member
    · exact receiver r member
  refine Term.all_iff.mpr ⟨⟨?_, fun r member => (kept r member).2, by simp, ?_⟩, ?_⟩
  · cases static : m.isStatic with
    | true => rfl
    | false => simpa [static, Option.isSome_iff_ne_none] using needs static
  · intro arg member
    obtain ⟨x, inside, rfl⟩ := List.mem_map.mp member
    exact (fitted x inside).2
  · simp only [Term.parts, List.mem_append, Option.mem_toList, List.mem_map]
    rintro u (member | ⟨arg, ⟨x, member, rfl⟩, rfl⟩)
    · exact (kept u member).1
    · exact (fitted x member).1

theorem wellFormed_kept : s.Keeps (Term.WellFormed s) where
  name := named_wellFormed
  literal := literalTerm_wellFormed
  negatedLiteral := negatedLiteral_wellFormed
  this := this_wellFormed
  member := memberTerm_wellFormed
  ownCall _ named _ args h := by
    obtain ⟨-, own⟩ := ownMethods_eq_ok named
    refine callOf_wellFormed (fun r member => ?_) args h
    rw [(own r member).1]
    exact ⟨this_wellFormed, rfl⟩
  memberCall _ before named _ args h := by
    obtain ⟨type, named, -⟩ := memberMethods_eq_ok named
    exact callOf_wellFormed (receiverType_wellFormed before named) args h
  element formed typed _ converted := by
    refine Term.all_iff.mpr ⟨⟨typed, fun u member => ?_⟩, ?_⟩
    · obtain ⟨given, formed, converts⟩ := converted u member
      obtain ⟨-, found, typed, -⟩ := convert_wellFormed formed converts
      simp [typed]
    · refine List.forall_mem_cons.mpr ⟨formed, fun u member => ?_⟩
      obtain ⟨given, formed, converts⟩ := converted u member
      exact (convert_wellFormed formed converts).1
  cast _ formed h := (convert_wellFormed formed h).1
  negate := negate_wellFormed
  arithmetic formedLeft formedRight promotesLeft promotesRight h := by
    obtain ⟨formedLeft, promotedLeft⟩ := promote_wellFormed formedLeft promotesLeft
    obtain ⟨formedRight, promotedRight⟩ := promote_wellFormed formedRight promotesRight
    exact arithmetic_wellFormed formedLeft formedRight promotedLeft promotedRight h
  coalesce := coalesceTerm_wellFormed
  assign allowed formedTarget assignable formedValue h :=
    assign_wellFormed formedTarget assignable allowed formedValue h

/-- Every bound term is well formed. -/
theorem bind_wellFormed {expr : Expr} (h : s.bind expr = .ok t) : t.WellFormed s :=
  bind_keeps wellFormed_kept h

end Scope

end DebugExpr.Bound
