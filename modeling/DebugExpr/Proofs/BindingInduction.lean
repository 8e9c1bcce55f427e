import DebugExpr.Proofs.BindingSteps

/-! Induction over bound expressions. `bind_induction` has a case for each way in which an
expression is bound, with the steps that succeeded, and `bind_keeps` is its instance for properties
of the term alone: what every step keeps holds of every bound term. What binding guarantees is
proved from these. -/
namespace DebugExpr.Bound
open Metadata Source

namespace Scope
variable {s : Scope}

/-- Induction over the expressions that are bound, together with the terms that they are bound to.
Indices come with the type to which they are converted. -/
theorem bind_induction {P : Expr → Term → Prop} {Q : ClosedType → List Expr → List Term → Prop}
    {R : List (Passing × Expr) → List (Bool × Term) → Prop}
    (name : ∀ {p : Nat} {name : String} {typeArgs : List TypeExpr} {t : Term}, s.Named name t →
      P (.name p name typeArgs) t)
    (literal : ∀ {p : Nat} {value : Literal} {t : Term}, s.literalTerm value = .ok t →
      P (.literal p value) t)
    (this : ∀ {p : Nat}, s.frame.isStatic = false → P (.this p) s.this)
    (member : ∀ {p : Nat} {target : Expr} {name : String} {typeArgs : List TypeExpr}
      {receiver : Receiver} {t : Term}, s.bind (.member p target name typeArgs) = .ok t →
      (∀ u, s.bind target = .ok u → P target u) →
      s.receiver target (s.bind target) = .ok receiver →
      s.memberTerm receiver name typeArgs = .ok t → P (.member p target name typeArgs) t)
    (ownCall : ∀ {p q : Nat} {name : String} {written : List TypeExpr}
      {args : List (Passing × Expr)} {methods : List Method} {t : Term} (site : CallSite),
      s.ownMethods name written = .ok (site.declaring, methods, site.receiver) →
      s.resolveTypes written = .ok site.typeArgs → R args site.args →
      s.callOf name site methods = .ok t → P (.invoke p (.name q name written) args) t)
    (memberCall : ∀ {p q : Nat} {target : Expr} {name : String} {written : List TypeExpr}
      {args : List (Passing × Expr)} {receiver : Receiver} {methods : List Method} {t : Term}
      (site : CallSite), s.bind (.invoke p (.member q target name written) args) = .ok t →
      (∀ u, s.bind target = .ok u → P target u) →
      s.receiver target (s.bind target) = .ok receiver →
      s.memberMethods receiver name = .ok (site.declaring, methods, site.receiver) →
      s.resolveTypes written = .ok site.typeArgs → R args site.args →
      s.callOf name site methods = .ok t → P (.invoke p (.member q target name written) args) t)
    (index : ∀ {p : Nat} {target : Expr} {indices : List Expr} {array : Term} {terms : List Term}
      {type int : ClosedType}, P target array → array.type? = some (.array type terms.length) →
      s.snapshot.primitive .int32 = .ok int → Q int indices terms →
      P (.index p target indices) (.element array terms type))
    (cast : ∀ {p : Nat} {written : TypeExpr} {operand : Expr} {type : ClosedType} {u t : Term},
      s.resolveType written = .ok type → P operand u → s.convert u type true = .ok t →
      P (.cast p written operand) t)
    (negateLiteral : ∀ {p q : Nat} {value : UInt64} {t : Term},
      s.negatedLiteral value.toNat = .ok t → P (.negate p (.literal q (.integer value))) t)
    (negate : ∀ {p : Nat} {operand : Expr} {u t : Term}, P operand u → s.negate u = .ok t →
      P (.negate p operand) t)
    (binary : ∀ {p : Nat} {op : BinaryOp} {left right : Expr} {l r l' r' t : Term}, P left l →
      P right r → s.promote l = .ok l' → s.promote r = .ok r' → s.arithmetic op l' r' = .ok t →
      P (.binary p op left right) t)
    (coalesce : ∀ {p : Nat} {left right : Expr} {l r t : Term}, P left l → P right r →
      s.coalesceTerm l r = .ok t → P (.coalesce p left right) t)
    (assign : ∀ {p : Nat} {target value : Expr} {op : Option BinaryOp} {l r t : Term},
      s.allowsSideEffects = true → P target l → l.isAssignable = true → P value r →
      s.assign l op r = .ok t → P (.assign p target op value) t)
    (noIndices : ∀ {type : ClosedType}, Q type [] [])
    (indices : ∀ {type : ClosedType} {expr : Expr} {rest : List Expr} {given u : Term}
      {terms : List Term}, P expr given → s.convert given type false = .ok u → Q type rest terms →
      Q type (expr :: rest) (u :: terms))
    (noArguments : R [] [])
    (arguments : ∀ {passing : Passing} {expr : Expr} {rest : List (Passing × Expr)} {u : Term}
      {terms : List (Bool × Term)}, P expr u →
      ((passing != .value) = true → u.isAssignable = true) →
      R rest terms → R ((passing, expr) :: rest) ((passing != .value, u) :: terms))
    {expr : Expr} {t : Term} (bound : s.bind expr = .ok t) : P expr t := by
  revert t
  refine bind.induct s (motive_1 := fun expr => ∀ {t}, s.bind expr = .ok t → P expr t)
    (motive_2 := fun type exprs => ∀ {terms}, s.indexTerms type exprs = .ok terms →
      terms.length = exprs.length ∧ Q type exprs terms)
    (motive_3 := fun args => ∀ {terms}, s.argumentTerms args = .ok terms → R args terms)
    ?name ?global ?literal ?this ?member ?invokeName ?invokeMember ?invokeOther ?index ?cast
    ?negateLiteral ?negate ?binary ?coalesce ?refused ?assign ?noArguments ?argument ?noIndices
    ?indices expr
  case name =>
    intro _ _ _ t h
    exact name (nameTerm_eq_ok h)
  case global => simp [bind]
  case literal =>
    intro _ _ t h
    exact literal h
  case this =>
    intro position t h
    simp only [bind, thisTerm] at h
    split at h
    · simp at h
    · rename_i instance'
      obtain rfl : s.this = t := by simpa using h
      exact this (by simpa using instance')
  case member =>
    intro _ _ _ _ ih t bound
    obtain ⟨receiver, resolves, h⟩ := bind_eq_ok.mp bound
    exact member bound (fun _ => ih) resolves h
  case invokeName =>
    intro _ _ _ _ _ ih t h
    obtain ⟨⟨declaring, methods, receiver⟩, named, h⟩ := bind_eq_ok.mp h
    obtain ⟨types, resolves, h⟩ := bind_eq_ok.mp h
    obtain ⟨terms, binds, h⟩ := bind_eq_ok.mp h
    exact ownCall ⟨declaring, receiver, types, terms⟩ named resolves (ih binds) h
  case invokeMember =>
    intro _ _ _ _ _ _ ihTarget ihArgs t bound
    obtain ⟨receiver, before, h⟩ := bind_eq_ok.mp bound
    obtain ⟨⟨declaring, methods, kept⟩, named, h⟩ := bind_eq_ok.mp h
    obtain ⟨types, resolves, h⟩ := bind_eq_ok.mp h
    obtain ⟨terms, binds, h⟩ := bind_eq_ok.mp h
    exact memberCall ⟨declaring, kept, types, terms⟩ bound (fun _ => ihTarget) before named resolves
      (ihArgs binds) h
  case invokeOther =>
    intro _ _ _ notName notMember _ t h
    rw [bind] at h
    · simp at h
    · exact notName
    · exact notMember
  case index =>
    intro _ _ _ ih ihIndices t h
    obtain ⟨array, binds, h⟩ := bind_eq_ok.mp h
    obtain ⟨element, elements, h⟩ := bind_eq_ok.mp h
    obtain ⟨int, named, h⟩ := bind_eq_ok.mp h
    obtain ⟨terms, bindsIndices, h⟩ := bind_eq_ok.mp h
    obtain rfl := pure_eq_ok.mp h
    obtain ⟨count, converted⟩ := ihIndices int bindsIndices
    exact index (ih binds) (count ▸ elementType_eq_ok elements) named converted
  case cast =>
    intro _ _ _ ih t h
    obtain ⟨type, resolves, h⟩ := bind_eq_ok.mp h
    obtain ⟨operand, binds, h⟩ := bind_eq_ok.mp h
    exact cast resolves (ih binds) h
  case negateLiteral =>
    intro _ _ _ t h
    exact negateLiteral h
  case negate =>
    intro _ _ notLiteral ih t h
    rw [bind] at h
    · obtain ⟨operand, binds, h⟩ := bind_eq_ok.mp h
      exact negate (ih binds) h
    · exact notLiteral
  case binary =>
    intro _ _ _ _ ihLeft ihRight t h
    obtain ⟨l, bindsLeft, h⟩ := bind_eq_ok.mp h
    obtain ⟨l', promotesLeft, h⟩ := bind_eq_ok.mp h
    obtain ⟨r, bindsRight, h⟩ := bind_eq_ok.mp h
    obtain ⟨r', promotesRight, h⟩ := bind_eq_ok.mp h
    exact binary (ihLeft bindsLeft) (ihRight bindsRight) promotesLeft promotesRight h
  case coalesce =>
    intro _ _ _ ihLeft ihRight t h
    obtain ⟨l, bindsLeft, h⟩ := bind_eq_ok.mp h
    obtain ⟨r, bindsRight, h⟩ := bind_eq_ok.mp h
    exact coalesce (ihLeft bindsLeft) (ihRight bindsRight) h
  case refused =>
    intro _ _ _ _ refused _ _ t h
    simp [bind, refused] at h
  case assign =>
    intro _ _ _ _ allowed ihTarget ihValue t h
    simp only [bind, allowed] at h
    obtain ⟨found, binds, h⟩ := bind_eq_ok.mp h
    obtain ⟨target, checks, h⟩ := bind_eq_ok.mp h
    obtain ⟨value, bindsValue, assigns⟩ := bind_eq_ok.mp h
    obtain ⟨rfl, assignable⟩ := checkTarget_eq_ok checks
    exact assign (by simpa using allowed) (ihTarget binds) assignable (ihValue bindsValue) assigns
  case noArguments =>
    intro terms h
    obtain rfl : [] = terms := by simpa [argumentTerms] using h
    exact noArguments
  case argument =>
    intro passing expr rest ih ihRest terms h
    obtain ⟨u, binds, h⟩ := bind_eq_ok.mp h
    obtain ⟨⟨byRef, u'⟩, checks, h⟩ := bind_eq_ok.mp h
    obtain ⟨terms, bindsRest, h⟩ := bind_eq_ok.mp h
    obtain rfl := pure_eq_ok.mp h
    obtain ⟨rfl, rfl, assignable⟩ := checkArgument_eq_ok checks
    exact arguments (ih binds) assignable (ihRest bindsRest)
  case noIndices =>
    intro type terms h
    obtain rfl : [] = terms := by simpa [indexTerms] using h
    exact ⟨rfl, noIndices⟩
  case indices =>
    intro type expr rest ih ihRest terms h
    obtain ⟨given, binds, h⟩ := bind_eq_ok.mp h
    obtain ⟨u, converts, h⟩ := bind_eq_ok.mp h
    obtain ⟨terms, bindsRest, h⟩ := bind_eq_ok.mp h
    obtain rfl := pure_eq_ok.mp h
    obtain ⟨count, converted⟩ := ihRest bindsRest
    exact ⟨by simp [count], indices (ih binds) converts converted⟩

/-- Every step of binding keeps a property of terms: where the terms that it is given have the
property, so has the term that it makes. -/
structure Keeps (s : Scope) (P : Term → Prop) : Prop where
  name : ∀ {name : String} {t : Term}, s.Named name t → P t
  literal : ∀ {value : Literal} {t : Term}, s.literalTerm value = .ok t → P t
  negatedLiteral : ∀ {n : Nat} {t : Term}, s.negatedLiteral n = .ok t → P t
  this : P s.this
  member : ∀ {receiver : Receiver} {name : String} {typeArgs : List TypeExpr} {t : Term},
    s.Before P receiver → s.memberTerm receiver name typeArgs = .ok t → P t
  ownCall : ∀ {name : String} {written : List TypeExpr} {methods : List Method} {t : Term}
    (site : CallSite), s.ownMethods name written = .ok (site.declaring, methods, site.receiver) →
    s.resolveTypes written = .ok site.typeArgs →
    (∀ arg ∈ site.args, P arg.2 ∧ (arg.1 = true → arg.2.isAssignable = true)) →
    s.callOf name site methods = .ok t → P t
  memberCall : ∀ {receiver : Receiver} {name : String} {written : List TypeExpr}
    {methods : List Method} {t : Term} (site : CallSite), s.Before P receiver →
    s.memberMethods receiver name = .ok (site.declaring, methods, site.receiver) →
    s.resolveTypes written = .ok site.typeArgs →
    (∀ arg ∈ site.args, P arg.2 ∧ (arg.1 = true → arg.2.isAssignable = true)) →
    s.callOf name site methods = .ok t → P t
  element : ∀ {array : Term} {indices : List Term} {type int : ClosedType}, P array →
    array.type? = some (.array type indices.length) → s.snapshot.primitive .int32 = .ok int →
    (∀ index ∈ indices, ∃ given, P given ∧ s.convert given int false = .ok index) →
    P (.element array indices type)
  cast : ∀ {written : TypeExpr} {type : ClosedType} {operand t : Term},
    s.resolveType written = .ok type → P operand → s.convert operand type true = .ok t → P t
  negate : ∀ {operand t : Term}, P operand → s.negate operand = .ok t → P t
  arithmetic : ∀ {op : BinaryOp} {left right left' right' t : Term}, P left → P right →
    s.promote left = .ok left' → s.promote right = .ok right' →
    s.arithmetic op left' right' = .ok t → P t
  coalesce : ∀ {left right t : Term}, P left → P right → s.coalesceTerm left right = .ok t → P t
  assign : ∀ {op : Option BinaryOp} {target value t : Term}, s.allowsSideEffects = true →
    P target → target.isAssignable = true → P value → s.assign target op value = .ok t → P t

/-- What every step keeps holds of every bound term. -/
theorem bind_keeps {P : Term → Prop} (keeps : s.Keeps P) {expr : Expr} {t : Term}
    (h : s.bind expr = .ok t) : P t :=
  bind_induction (P := fun _ t => P t)
    (Q := fun type _ terms => ∀ index ∈ terms,
      ∃ given, P given ∧ s.convert given type false = .ok index)
    (R := fun _ terms => ∀ arg ∈ terms, P arg.2 ∧ (arg.1 = true → arg.2.isAssignable = true))
    keeps.name keeps.literal (fun _ => keeps.this)
    (fun _ holds resolves made => keeps.member (receiver_eq_ok holds resolves) made)
    keeps.ownCall
    (fun site _ holds before named resolves args made =>
      keeps.memberCall site (receiver_eq_ok holds before) named resolves args made)
    keeps.element keeps.cast keeps.negatedLiteral keeps.negate keeps.arithmetic keeps.coalesce
    keeps.assign (by simp)
    (fun holds converts rest => List.forall_mem_cons.mpr ⟨⟨_, holds, converts⟩, rest⟩) (by simp)
    (fun holds assignable rest => List.forall_mem_cons.mpr ⟨⟨holds, assignable⟩, rest⟩) h

end Scope

end DebugExpr.Bound
