import DebugExpr.Bound.Bind
import DebugExpr.Proofs.Success

/-! The steps of binding, inverted. For each step that makes a term there is one lemma that says what
the step can have made. -/
namespace DebugExpr.Bound
open Metadata Source

theorem Frame.local?_slot {f : Frame} {name : String} {index : Nat} {slot : FrameLocal}
    (h : f.local? name = some (index, slot)) : f.locals[index]? = some slot := by
  unfold Frame.local? at h
  split at h
  · simp at h
  · split at h
    · simp only [Option.map_eq_some_iff, Prod.mk.injEq] at h
      obtain ⟨_, found, rfl, rfl⟩ := h
      exact found
    · simp at h

theorem Frame.parameter?_slot {f : Frame} {name : String} {index : Nat} {slot : FrameParameter}
    (h : f.parameter? name = some (index, slot)) :
    ∃ i, index = i + (if f.isStatic then 0 else 1) ∧ f.parameters[i]? = some slot := by
  unfold Frame.parameter? at h
  split at h
  · simp at h
  · rename_i i _
    simp only [Option.ite_none_right_eq_some, Option.map_eq_some_iff, Prod.mk.injEq] at h
    obtain ⟨_, _, found, rfl, rfl⟩ := h
    exact ⟨i, rfl, found⟩

namespace Scope
variable {s : Scope} {t t' left right target value array : Term} {type source wanted : ClosedType}
  {explicit : Bool}

theorem when_eq (condition : Bool) (kind : Conversion) :
    Convertible.when condition kind = .no ∨ Convertible.when condition kind = .via kind := by
  cases condition <;> simp [Convertible.when]

theorem convertibleValue_eq {found : Convertible}
    (h : s.convertibleValue source wanted explicit = .ok found) :
    found = .no ∨ wanted.isReferenceType = true ∧ found = .via .boxing := by
  unfold convertibleValue at h
  split at h
  · exact .inl (pure_eq_ok.mp h).symm
  · rename_i reference
    rw [Bool.not_eq_true, Bool.not_eq_false'] at reference
    split at h
    · exact .inr ⟨reference, (pure_eq_ok.mp h).symm⟩
    · obtain ⟨inherits, -, h⟩ := bind_eq_ok.mp h
      split at h
      · exact .inr ⟨reference, (pure_eq_ok.mp h).symm⟩
      · rw [← pure_eq_ok.mp h]
        exact (when_eq ..).imp_right (And.intro reference)

theorem convertibleReference_eq {found : Convertible}
    (h : s.convertibleReference source wanted explicit = .ok found) :
    found = .no ∨ found = .via .implicitReference ∨ found = .via .explicitReference := by
  unfold convertibleReference at h
  split at h
  · exact .inr (.inl (pure_eq_ok.mp h).symm)
  · obtain ⟨inherits, -, h⟩ := bind_eq_ok.mp h
    split at h
    · exact .inr (.inl (pure_eq_ok.mp h).symm)
    · split at h
      · exact .inl (pure_eq_ok.mp h).symm
      · split at h
        · exact .inr (.inr (pure_eq_ok.mp h).symm)
        · obtain ⟨derived, -, h⟩ := bind_eq_ok.mp h
          rw [← pure_eq_ok.mp h]
          exact (when_eq derived .explicitReference).imp_right .inr

theorem convertibleBoxed_eq {found : Convertible}
    (h : s.convertibleBoxed source wanted explicit = .ok found) :
    found = .no ∨ found = .via .unboxing := by
  unfold convertibleBoxed at h
  split at h
  · exact .inl (pure_eq_ok.mp h).symm
  · split at h
    · exact .inr (pure_eq_ok.mp h).symm
    · obtain ⟨derived, -, h⟩ := bind_eq_ok.mp h
      rw [← pure_eq_ok.mp h]
      exact when_eq ..

theorem convertible_same {found : Option ClosedType}
    (h : s.convertible found wanted explicit = .ok .same) :
    ∃ type, found = some type ∧ (type == wanted) = true := by
  unfold convertible at h
  split at h
  · rename_i source
    cases same : wanted.isReferenceType <;> simp [Convertible.when, same] at h
  · rename_i source
    split at h
    · rename_i same
      exact ⟨source, rfl, same⟩
    · exfalso
      split at h
      · rename_i narrow wide _ _
        have := when_eq (explicit || (widenings narrow).contains wide) (.numeric wide)
        simp_all
      · split at h
        · simpa using convertibleValue_eq h
        · split at h
          · simpa using convertibleReference_eq h
          · simpa using convertibleBoxed_eq h

/-- What a term becomes by a conversion: a constant is made anew, a term of the type stays as it is,
and any other one gets a conversion around it. -/
inductive Converted (s : Scope) (t : Term) (wanted : ClosedType) (explicit : Bool) : Term → Prop
  | refit {constant : Term} (refits : s.refit t wanted = .ok (some constant)) :
    Converted s t wanted explicit constant
  | same {type : ClosedType} (typed : t.type? = some type) (same : (type == wanted) = true) :
    Converted s t wanted explicit t
  | via {kind : Conversion} (converts : s.convertible t.type? wanted explicit = .ok (.via kind)) :
    Converted s t wanted explicit (.conversion kind t wanted)

theorem convert?_eq_some (h : s.convert? t wanted explicit = .ok (some t')) :
    s.Converted t wanted explicit t' := by
  obtain ⟨constant?, refits, h⟩ := bind_eq_ok.mp h
  cases constant? with
  | some constant =>
    obtain rfl : constant = t' := by simpa using h
    exact .refit refits
  | none =>
    obtain ⟨found, converts, h⟩ := bind_eq_ok.mp h
    cases found with
    | no => simp at h
    | same =>
      obtain rfl : t = t' := by simpa using h
      obtain ⟨type, typed, same⟩ := convertible_same converts
      exact .same typed same
    | via kind =>
      obtain rfl : .conversion kind t wanted = t' := by simpa using h
      exact .via converts

theorem convert_eq_ok (h : s.convert t wanted explicit = .ok t') :
    s.Converted t wanted explicit t' := by
  obtain ⟨converted?, converts, h⟩ := bind_eq_ok.mp h
  cases converted? with
  | none => simp at h
  | some converted =>
    obtain rfl : converted = t' := by simpa using h
    exact convert?_eq_some converts

theorem refit_eq_some (h : s.refit t wanted = .ok (some t')) :
    ∃ n p, integerValue? t = some n ∧ wanted.primitive? = some p ∧ inRange p n = true ∧
      s.integerTerm n p = .ok t' := by
  unfold refit at h
  split at h
  · rename_i n p value marked
    split at h
    · rename_i range
      simp only [bind_eq_ok, pure_eq_ok, Option.some.injEq, exists_eq_right] at h
      exact ⟨n, p, value, marked, range, h⟩
    · simp at h
  · simp at h

/-- Promotion changes the operands of small types alone. -/
theorem promote_eq_ok (h : s.promote t = .ok t') :
    (∃ int, s.snapshot.primitive .int32 = .ok int ∧ s.convert t int false = .ok t') ∨
      (t.type?.bind numeric?).any isPromoted = false ∧ t' = t := by
  unfold promote at h
  split at h
  · obtain ⟨int, named, h⟩ := bind_eq_ok.mp h
    exact .inl ⟨int, named, h⟩
  · rename_i notSmall
    exact .inr ⟨by simpa using notSmall, (Except.ok.inj h).symm⟩

theorem negate_eq_ok (h : s.negate t = .ok t') :
    ∃ operand, s.promote t = .ok operand ∧
      (operand.type?.bind numeric?).any (!·.isUnsigned) = true ∧ t' = .negate operand := by
  obtain ⟨operand, promotes, h⟩ := bind_eq_ok.mp h
  split at h
  · exact ⟨operand, promotes, ‹_›, (pure_eq_ok.mp h).symm⟩
  · simp at h

/-- Arithmetic has the type of one operand. Where the types differ the left operand is converted to
the type of the right one, and else the right one to that of the left. -/
theorem arithmetic_eq_ok {op : BinaryOp} (h : s.arithmetic op left right = .ok t) :
    ∃ leftType rightType, left.type? = some leftType ∧ right.type? = some rightType ∧
      (numeric? leftType).isSome ∧ (numeric? rightType).isSome ∧
      ((leftType == rightType) = true ∧ t = .binary op left right leftType ∨
        (∃ left', s.convert? left rightType false = .ok (some left') ∧
          t = .binary op left' right rightType) ∨
        ∃ right', s.convert? right leftType false = .ok (some right') ∧
          t = .binary op left right' leftType) := by
  unfold arithmetic at h
  split at h
  · rename_i leftType rightType typedLeft typedRight
    by_cases refused : numeric? leftType = none ∨ numeric? rightType = none
    · simp [refused] at h
    obtain ⟨numericLeft, numericRight⟩ :
        (numeric? leftType).isSome ∧ (numeric? rightType).isSome := by
      simpa [Option.isSome_iff_ne_none] using refused
    refine ⟨leftType, rightType, typedLeft, typedRight, numericLeft, numericRight, ?_⟩
    simp only [Option.isNone_iff_eq_none, Bool.or_eq_true, refused, if_false] at h
    split at h
    · exact .inl ⟨‹_›, (pure_eq_ok.mp h).symm⟩
    · obtain ⟨converted?, converts, h⟩ := bind_eq_ok.mp h
      cases converted? with
      | some left' => exact .inr (.inl ⟨left', converts, (pure_eq_ok.mp h).symm⟩)
      | none =>
        obtain ⟨converted?, converts, h⟩ := bind_eq_ok.mp h
        cases converted? with
        | some right' => exact .inr (.inr ⟨right', converts, (pure_eq_ok.mp h).symm⟩)
        | none => simp at h
  · simp at h

theorem coalesceTerm_eq_ok (h : s.coalesceTerm left right = .ok t) :
    ∃ leftType, left.type? = some leftType ∧ leftType.isReferenceType = true ∧
      ((∃ right', s.convert? right leftType false = .ok (some right') ∧
          t = .coalesce left right' leftType) ∨
        ∃ rightType left', right.type? = some rightType ∧
          s.convert left rightType false = .ok left' ∧ t = .coalesce left' right rightType) := by
  unfold coalesceTerm at h
  split at h
  · simp at h
  · rename_i leftType filtered
    obtain ⟨typedLeft, reference⟩ := Option.filter_eq_some_iff.mp filtered
    refine ⟨leftType, typedLeft, reference, ?_⟩
    obtain ⟨converted?, converts, h⟩ := bind_eq_ok.mp h
    cases converted? with
    | some right' => exact .inl ⟨right', converts, (pure_eq_ok.mp h).symm⟩
    | none =>
      simp only at h
      split at h
      · simp at h
      · rename_i rightType typedRight
        obtain ⟨found, -, h⟩ := bind_eq_ok.mp h
        split at h
        · simp at h
        · obtain ⟨left', converts, h⟩ := bind_eq_ok.mp h
          exact .inr ⟨rightType, left', typedRight, converts, (pure_eq_ok.mp h).symm⟩

theorem assign_eq_ok {op : Option BinaryOp} (h : s.assign target op value = .ok t) :
    ∃ type value', target.type? = some type ∧ s.convert value type false = .ok value' ∧
      (op = none ∧ t = .assign target value' type ∨
        ∃ operator, op = some operator ∧ (numeric? type).isSome ∧
          t = .compound operator target value' type) := by
  unfold assign at h
  split at h
  · simp at h
  · rename_i type typed
    cases op with
    | none =>
      obtain ⟨value', converts, h⟩ := bind_eq_ok.mp h
      exact ⟨type, value', typed, converts, .inl ⟨rfl, (pure_eq_ok.mp h).symm⟩⟩
    | some operator =>
      by_cases refused : numeric? type = none
      · simp [refused] at h
      simp only [Option.isNone_iff_eq_none, refused, if_false] at h
      obtain ⟨value', converts, h⟩ := bind_eq_ok.mp h
      exact ⟨type, value', typed, converts,
        .inr ⟨operator, rfl, Option.isSome_iff_ne_none.mpr refused, (pure_eq_ok.mp h).symm⟩⟩

/-- A literal is null, a truth value, a string or an integer constant. -/
theorem literalTerm_eq_ok {literal : Literal} (h : s.literalTerm literal = .ok t) :
    t = .null ∨
      (∃ value type, s.snapshot.primitive .boolean = .ok type ∧
        t = .constant (.bool value) type) ∨
      (∃ value type, s.snapshot.primitive .string = .ok type ∧
        t = .constant (.string value) type) ∨
      ∃ n : UInt64, s.integerTerm n.toNat (literalType n.toNat) = .ok t := by
  cases literal with
  | null => exact .inl (Except.ok.inj h).symm
  | bool value =>
    obtain ⟨type, named, h⟩ := bind_eq_ok.mp h
    exact .inr (.inl ⟨value, type, named, (pure_eq_ok.mp h).symm⟩)
  | string value =>
    obtain ⟨type, named, h⟩ := bind_eq_ok.mp h
    exact .inr (.inr (.inl ⟨value, type, named, (pure_eq_ok.mp h).symm⟩))
  | integer value => exact .inr (.inr (.inr ⟨value, h⟩))

theorem negatedLiteral_eq_ok {n : Nat} (h : s.negatedLiteral n = .ok t) :
    ∃ p, inRange p (-n) = true ∧ s.integerTerm (-n) p = .ok t := by
  unfold negatedLiteral at h
  split at h
  · exact ⟨.int32, ‹_›, h⟩
  · split at h
    · exact ⟨.int64, ‹_›, h⟩
    · simp at h

/-- A type declares methods, a field or a property of a name. -/
theorem declaredMember_eq_some {name : String} {invoked : Bool} {found : Member}
    (h : s.declaredMember name invoked type = .ok (some found)) :
    ∃ home d args, type = .named home d args ∧
      (found = .methods type (d.methodsNamed name) ∨
        ∃ written m, s.memberRef type home args written = .ok m ∧
          (d.field? name = some written ∧ found = .field m ∨
            d.property? name = some written ∧ found = .property m)) := by
  cases type with
  | array => cases h
  | named home d args =>
    refine ⟨home, d, args, rfl, ?_⟩
    simp only [declaredMember] at h
    -- methods are answered in two places: before fields if they are called, else behind properties
    generalize isGroup : (if (d.methodsNamed name).isEmpty then none else
      some (Member.methods (.named home d args) (d.methodsNamed name))) = group? at h
    have group : group? = some found →
        found = .methods (.named home d args) (d.methodsNamed name) := by
      rintro rfl
      split at isGroup
      · cases isGroup
      · exact (Option.some.inj isGroup).symm
    split at h
    · exact .inl (group (Except.ok.inj h))
    · split at h
      · rename_i f isField
        obtain ⟨m, binds, h⟩ := bind_eq_ok.mp h
        obtain rfl := Option.some.inj (pure_eq_ok.mp h)
        exact .inr ⟨f, m, binds, .inl ⟨isField, rfl⟩⟩
      · split at h
        · rename_i p isProperty
          obtain ⟨m, binds, h⟩ := bind_eq_ok.mp h
          obtain rfl := Option.some.inj (pure_eq_ok.mp h)
          exact .inr ⟨p, m, binds, .inr ⟨isProperty, rfl⟩⟩
        · exact .inl (group (Except.ok.inj h))

/-- The search for a member climbs from base type to base type and answers what one of them
declares. What holds of the type that it begins at and of the base types of all types of which it
holds, holds of that one. -/
theorem findMember_eq_some {P : ClosedType → Prop} {name : String} {invoked : Bool} {found : Member}
    (start : P type)
    (climbs : ∀ {type base}, P type → s.snapshot.baseType type = .ok (some base) → P base)
    (h : s.findMember type name invoked = .ok (some found)) :
    ∃ owner, P owner ∧ s.declaredMember name invoked owner = .ok (some found) := by
  unfold findMember at h
  generalize s.config.maxInheritanceDepth = steps at h
  induction steps generalizing type with
  | zero =>
    rw [findMemberWithin] at h
    obtain ⟨own, declared, h⟩ := bind_eq_ok.mp h
    cases own with
    | none => simp at h
    | some m =>
      obtain rfl := Option.some.inj (pure_eq_ok.mp h)
      exact ⟨type, start, declared⟩
  | succ steps ih =>
    rw [findMemberWithin] at h
    obtain ⟨own, declared, h⟩ := bind_eq_ok.mp h
    cases own with
    | some m =>
      obtain rfl := Option.some.inj (pure_eq_ok.mp h)
      exact ⟨type, start, declared⟩
    | none =>
      obtain ⟨base?, inherits, h⟩ := bind_eq_ok.mp h
      cases base? with
      | none => simp at h
      | some base => exact ih (climbs start inherits) h

/-- A static member of the frame has no receiver, and any other one has `this`. -/
theorem ownReceiver?_eq_some {isStatic : Bool} {receiver : Option Term}
    (h : s.ownReceiver? isStatic = some receiver) :
    receiver.isNone = isStatic ∧ ∀ r ∈ receiver, r = s.this ∧ s.frame.isStatic = false := by
  unfold ownReceiver? at h
  split at h
  · cases h
    simp_all
  · split at h
    · simp at h
    · cases h
      simp_all

/-- A member of the containing type that a simple name may denote. -/
theorem ownMember?_eq_some {found : Option Member} (h : s.ownMember? found = some t) :
    ∃ m receiver, s.ownReceiver? m.isStatic = some receiver ∧
      (found = some (.field m) ∧ t = .field receiver m ∨
        found = some (.property m) ∧ t = .property receiver m) := by
  unfold ownMember? at h
  split at h
  · rename_i m
    obtain ⟨receiver, own, rfl⟩ := Option.map_eq_some_iff.mp h
    exact ⟨m, receiver, own, .inl ⟨rfl, rfl⟩⟩
  · rename_i m
    obtain ⟨receiver, own, rfl⟩ := Option.map_eq_some_iff.mp h
    exact ⟨m, receiver, own, .inr ⟨rfl, rfl⟩⟩
  · simp at h

/-- What a simple name denotes. -/
inductive Named (s : Scope) (name : String) : Term → Prop
  | localVar {index : Nat} {slot : FrameLocal} (found : s.frame.local? name = some (index, slot)) :
    Named s name (.localVar index slot.type)
  | parameter {index : Nat} {slot : FrameParameter}
    (found : s.frame.parameter? name = some (index, slot)) :
    Named s name (.parameter index slot.byRef slot.type)
  | member {found : Option Member} {t : Term}
    (finds : s.findMember s.frame.containing name false = .ok found)
    (own : s.ownMember? found = some t) : Named s name t
  | pseudo {o : Pseudo.Occurrence} (binds : Pseudo.bind s.resolver s.context name = .ok (some o)) :
    Named s name (.pseudo o)

theorem simpleNameTerm?_eq_some {name : String} (h : s.simpleNameTerm? name = .ok (some t)) :
    s.Named name t := by
  unfold simpleNameTerm? at h
  split at h
  · obtain rfl := Option.some.inj (Except.ok.inj h)
    exact .localVar ‹_›
  · split at h
    · obtain rfl := Option.some.inj (Except.ok.inj h)
      exact .parameter ‹_›
    · obtain ⟨found, finds, h⟩ := bind_eq_ok.mp h
      split at h
      · obtain rfl := Option.some.inj (pure_eq_ok.mp h)
        exact .member finds ‹_›
      · obtain ⟨occurrence?, binds, h⟩ := bind_eq_ok.mp h
        obtain ⟨o, rfl, rfl⟩ := Option.map_eq_some_iff.mp (pure_eq_ok.mp h)
        exact .pseudo binds

theorem nameTerm_eq_ok {name : String} {typeArgs : List TypeExpr}
    (h : s.nameTerm name typeArgs = .ok t) : s.Named name t := by
  obtain ⟨term?, names, h⟩ := bind_eq_ok.mp h
  cases term? with
  | none => simp at h
  | some term =>
    cases typeArgs with
    | nil =>
      obtain rfl : term = t := by simpa using h
      exact simpleNameTerm?_eq_some names
    | cons => simp at h

/-- What may stand before a dot, where the terms that may have a property. -/
inductive Before (s : Scope) (P : Term → Prop) : Receiver → Prop
  | value {t : Term} (holds : P t) : Before s P (.value t)
  | type {written : TypeExpr} {type : ClosedType} (resolves : s.resolveType written = .ok type) :
    Before s P (.type type)

theorem receiver_eq_ok {P : Term → Prop} {expr : Expr} {bound : Except Error Term}
    {receiver : Receiver} (holds : ∀ t, bound = .ok t → P t)
    (h : s.receiver expr bound = .ok receiver) : s.Before P receiver := by
  unfold Scope.receiver at h
  split at h
  · obtain rfl := Except.ok.inj h
    exact .value (holds _ rfl)
  · split at h
    · rename_i resolves
      obtain rfl := Except.ok.inj h
      obtain ⟨path, -, resolves⟩ := Option.map_eq_some_iff.mp resolves
      exact .type resolves
    · simp at h
  · simp at h

/-- A receiver is a term with a type, or none if it is a type. -/
theorem receiverType_eq_ok {name : String} {receiver : Receiver} {found : Option Term}
    (h : receiverType name receiver = .ok (found, type)) :
    (receiver = .type type ∧ found = none) ∨
      ∃ t, receiver = .value t ∧ t.type? = some type ∧ found = some t := by
  unfold receiverType at h
  split at h
  · cases h
    exact .inl ⟨rfl, rfl⟩
  · split at h
    · cases h
      exact .inr ⟨_, rfl, ‹_›, rfl⟩
    · simp at h

/-- A static member drops what stands before the dot, and any other one needs it. -/
theorem keepReceiver_eq_some {isStatic : Bool} {before after : Option Term}
    (h : keepReceiver before isStatic = some after) :
    after.isNone = isStatic ∧ ∀ r ∈ after, r ∈ before := by
  unfold keepReceiver at h
  split at h
  · cases h
    simp_all
  · simp only [Option.map_eq_some_iff] at h
    obtain ⟨r, rfl, rfl⟩ := h
    simp_all

/-- Type arguments behind a field or a property are refused after it is found. -/
theorem memberTerm_eq_ok {receiver : Receiver} {name : String} {typeArgs : List TypeExpr}
    (h : s.memberTerm receiver name typeArgs = .ok t) :
    ∃ value type m kept, receiverType name receiver = .ok (value, type) ∧
      keepReceiver value m.isStatic = some kept ∧
      (s.findMember type name false = .ok (some (.field m)) ∧ t = .field kept m ∨
        s.findMember type name false = .ok (some (.property m)) ∧ t = .property kept m) := by
  obtain ⟨⟨value, type⟩, named, h⟩ := bind_eq_ok.mp h
  obtain ⟨found, finds, h⟩ := bind_eq_ok.mp h
  cases typeArgs with
  | cons =>
    rcases found with _ | f | p | _
    · simp at h
    · cases kept : keepReceiver value f.isStatic <;> simp [kept] at h
    · cases kept : keepReceiver value p.isStatic <;> simp [kept] at h
    · simp at h
  | nil =>
    simp only [List.isEmpty_nil, Bool.not_true, Bool.false_eq_true, if_false, pure_bind] at h
    split at h
    · split at h
      · exact ⟨value, type, _, _, named, ‹_›, .inl ⟨finds, (pure_eq_ok.mp h).symm⟩⟩
      · simp at h
    · split at h
      · exact ⟨value, type, _, _, named, ‹_›, .inr ⟨finds, (pure_eq_ok.mp h).symm⟩⟩
      · simp at h
    · simp at h
    · simp at h

theorem ownMethods_eq_ok {name : String} {typeArgs : List TypeExpr} {declaring : ClosedType}
    {methods : List Method} {receiver : Option Term}
    (h : s.ownMethods name typeArgs = .ok (declaring, methods, receiver)) :
    s.findMember s.frame.containing name true = .ok (some (.methods declaring methods)) ∧
      ∀ r ∈ receiver, r = s.this ∧ s.frame.isStatic = false := by
  obtain ⟨found, finds, h⟩ := bind_eq_ok.mp h
  split at h
  · split at h
    · simp at h
    · cases pure_eq_ok.mp h
      refine ⟨finds, fun r member => ?_⟩
      cases static : s.frame.isStatic <;> simp [static] at member
      exact ⟨member.symm, rfl⟩
  · simp at h

theorem memberMethods_eq_ok {receiver : Receiver} {name : String} {declaring : ClosedType}
    {methods : List Method} {value : Option Term}
    (h : s.memberMethods receiver name = .ok (declaring, methods, value)) :
    ∃ type, receiverType name receiver = .ok (value, type) ∧
      s.findMember type name true = .ok (some (.methods declaring methods)) := by
  obtain ⟨⟨found, type⟩, named, h⟩ := bind_eq_ok.mp h
  obtain ⟨member, finds, h⟩ := bind_eq_ok.mp h
  split at h
  · cases pure_eq_ok.mp h
    exact ⟨type, named, finds⟩
  · simp at h
  · simp at h

theorem callOf?_eq_some {site : CallSite} {m : Method} (h : s.callOf? site m = .ok (some t)) :
    m.params.length = site.args.length ∧ (m.isStatic = false → site.receiver.isSome) ∧
      ∃ methodArgs fitted returns, methodArgs? site m = some methodArgs ∧
        s.fitArguments site.declaring methodArgs m.params site.args = .ok (some fitted) ∧
        m.returns.mapM (s.snapshot.bind (s.homeOf site.declaring) site.declaring.args methodArgs) =
          .ok returns ∧
        t = .call (if m.isStatic then none else site.receiver)
          ⟨site.declaring, m.name, m.isStatic, methodArgs, fitted.map (·.1), returns⟩
          (fitted.map (·.2)) := by
  unfold callOf? at h
  split at h
  · simp at h
  · rename_i fits
    obtain ⟨count, needs⟩ := not_or.mp fits
    split at h
    · simp at h
    · rename_i methodArgs infers
      obtain ⟨fitted?, fits, h⟩ := bind_eq_ok.mp h
      cases fitted? with
      | none => simp at h
      | some fitted =>
        obtain ⟨returns, bindsReturns, h⟩ := bind_eq_ok.mp h
        refine ⟨Decidable.not_not.mp count, fun instance' => ?_, methodArgs, fitted, returns,
          infers, fits, bindsReturns, (Option.some.inj (pure_eq_ok.mp h)).symm⟩
        simpa [instance', Option.isSome_iff_ne_none] using needs

theorem callOf_eq_ok {name : String} {site : CallSite} {methods : List Method}
    (h : s.callOf name site methods = .ok t) :
    ∃ m ∈ methods, s.callOf? site m = .ok (some t) := by
  induction methods with
  | nil => simp [callOf] at h
  | cons m rest ih =>
    obtain ⟨call?, calls, h⟩ := bind_eq_ok.mp h
    cases call? with
    | none =>
      obtain ⟨other, member, calls⟩ := ih h
      exact ⟨other, List.mem_cons_of_mem m member, calls⟩
    | some call =>
      obtain rfl := pure_eq_ok.mp h
      exact ⟨m, List.mem_cons_self, calls⟩

theorem fitArgument_eq_some {byRef : Bool} {arg : Bool × Term}
    (h : s.fitArgument byRef type arg = .ok (some t)) :
    (arg.1 = true ∧ t = arg.2 ∧ ∃ found, t.type? = some found ∧ (found == type) = true) ∨
      arg.1 = false ∧ s.convert? arg.2 type false = .ok (some t) := by
  unfold fitArgument at h
  obtain ⟨argByRef, term⟩ := arg
  simp only at h ⊢
  split at h
  · simp at h
  · cases argByRef with
    | true =>
      simp only [if_true] at h
      split at h
      · rename_i same
        obtain rfl : term = t := by simpa using h
        refine .inl ⟨rfl, rfl, ?_⟩
        cases typed : term.type? with
        | none => simp [typed] at same
        | some found => exact ⟨found, rfl, by simpa [typed] using same⟩
      · simp at h
    | false => exact .inr ⟨rfl, h⟩

/-- Every fitted argument comes from an argument, fitted to the type of a parameter. -/
theorem fitArguments_eq_some {declaring : ClosedType} {methodArgs : List ClosedType}
    {params : List Parameter} {args : List (Bool × Term)}
    {fitted : List ((ClosedType × Bool) × (Bool × Term))}
    (h : s.fitArguments declaring methodArgs params args = .ok (some fitted)) :
    ∀ x ∈ fitted, ∃ p ∈ params, ∃ arg ∈ args, x.1.2 = arg.1 ∧ x.2.1 = arg.1 ∧
      s.snapshot.bind (s.homeOf declaring) declaring.args methodArgs p.signature = .ok x.1.1 ∧
      s.fitArgument p.byRef x.1.1 arg = .ok (some x.2.2) := by
  induction params generalizing args fitted with
  | nil =>
    obtain rfl : [] = fitted := by simpa [fitArguments] using h
    simp
  | cons p params ih =>
    cases args with
    | nil =>
      obtain rfl : [] = fitted := by simpa [fitArguments] using h
      simp
    | cons arg args =>
      obtain ⟨type, binds, h⟩ := bind_eq_ok.mp h
      obtain ⟨term?, fits, h⟩ := bind_eq_ok.mp h
      cases term? with
      | none => simp at h
      | some term =>
        obtain ⟨rest?, fitsRest, h⟩ := bind_eq_ok.mp h
        cases rest? with
        | none => simp at h
        | some rest =>
          obtain rfl := Option.some.inj (pure_eq_ok.mp h)
          refine List.forall_mem_cons.mpr
            ⟨⟨p, List.mem_cons_self, arg, List.mem_cons_self, rfl, rfl, binds, fits⟩, ?_⟩
          intro x member
          obtain ⟨q, isParam, other, isArg, fitted⟩ := ih fitsRest x member
          exact ⟨q, List.mem_cons_of_mem p isParam, other, List.mem_cons_of_mem arg isArg, fitted⟩

theorem checkArgument_eq_ok {passing : Passing} {arg : Bool × Term}
    (h : checkArgument passing t = .ok arg) :
    arg.1 = (passing != .value) ∧ arg.2 = t ∧ (arg.1 = true → arg.2.isAssignable = true) := by
  unfold checkArgument at h
  simp only at h
  split at h
  · simp at h
  · rename_i allowed
    obtain rfl : _ = arg := by simpa using h
    simp_all

theorem checkTarget_eq_ok (h : checkTarget t = .ok t') : t' = t ∧ t'.isAssignable = true := by
  unfold checkTarget at h
  split at h
  · rename_i assignable
    obtain rfl : t = t' := by simpa using h
    exact ⟨rfl, assignable⟩
  · simp at h

theorem elementType_eq_ok {count : Nat} (h : elementType array count = .ok type) :
    array.type? = some (.array type count) := by
  unfold elementType at h
  split at h
  · rename_i typed
    split at h
    · rename_i rank
      obtain rfl : _ = type := by simpa using h
      rw [typed, rank]
    · simp at h
  · simp at h

end Scope

end DebugExpr.Bound
