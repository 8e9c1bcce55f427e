import DebugExpr.Proofs.Receivers

/-! Paths of fields from `this`. In a method of a value type argument 0 refers to the value, so that
`this` has a place there, and so has each field of a value that has one. Code reads a path where it
is, but binding takes it for a value without a place: a path may not be assigned to, and a member is
called on a copy of what it holds. -/
namespace DebugExpr.Bound
open Metadata Source

/-- The field behind a path of fields from a term. -/
def Term.follow (t : Term) (fields : List MemberRef) : Term :=
  fields.foldl (fun whole f => .field (some whole) f) t

theorem Term.follow_concat (t : Term) (fields : List MemberRef) (f : MemberRef) :
    t.follow (fields ++ [f]) = .field (some (t.follow fields)) f := by
  simp [follow]

namespace Scope
variable {s : Scope} {expr : Expr} {fields : List MemberRef}

/-- The expression is a path of instance fields from `this`. All before the last are of value types,
and before the first one `this` may be left out. -/
inductive ThisPath (s : Scope) : Expr → List MemberRef → Prop
  | this (position : Nat) : ThisPath s (.this position) []
  | own (position : Nat) {name : String} {f : MemberRef} (noLocal : s.frame.local? name = none)
    (noParameter : s.frame.parameter? name = none)
    (finds : s.findMember s.frame.containing name false = .ok (some (.field f)))
    (ofInstance : f.isStatic = false) : ThisPath s (.name position name []) [f]
  | field (position : Nat) {target : Expr} {fields : List MemberRef} {type : ClosedType}
    {name : String} {f : MemberRef} (path : ThisPath s target fields)
    (typed : (s.this.follow fields).type? = some type) (value : type.isValueType = true)
    (finds : s.findMember type name false = .ok (some (.field f)))
    (ofInstance : f.isStatic = false) :
    ThisPath s (.member position target name []) (fields ++ [f])

theorem simpleNameTerm?_ownField {name : String} {f : MemberRef}
    (ofInstance : s.frame.isStatic = false) (noLocal : s.frame.local? name = none)
    (noParameter : s.frame.parameter? name = none)
    (finds : s.findMember s.frame.containing name false = .ok (some (.field f)))
    (ofObject : f.isStatic = false) :
    s.simpleNameTerm? name = .ok (some (.field (some s.this) f)) := by
  have own : s.ownMember? (some (.field f)) = some (.field (some s.this) f) := by
    simp [ownMember?, ownReceiver?, ofInstance, ofObject]
  simp only [simpleNameTerm?, noLocal, noParameter, finds, ok_bind, own]
  rfl

theorem memberTerm_field {t : Term} {type : ClosedType} {name : String} {f : MemberRef}
    (typed : t.type? = some type) (finds : s.findMember type name false = .ok (some (.field f)))
    (ofObject : f.isStatic = false) :
    s.memberTerm (.value t) name [] = .ok (.field (some t) f) := by
  have kept : keepReceiver (some t) f.isStatic = some (some t) := by simp [keepReceiver, ofObject]
  simp only [memberTerm, receiverType, typed, ok_bind, finds, kept]
  rfl

/-- The only part of a field or a property is what stands before the dot. -/
theorem memberTerm_receiver {t u r : Term} {name : String} {typeArgs : List TypeExpr}
    (h : s.memberTerm (.value t) name typeArgs = .ok u) (part : r ∈ u.parts) : r = t := by
  obtain ⟨value, type, m, kept, named, keeps, made⟩ := memberTerm_eq_ok h
  have isKept : r ∈ kept := by
    rcases made with ⟨-, rfl⟩ | ⟨-, rfl⟩ <;> simpa [Term.parts] using part
  have before := (keepReceiver_eq_some keeps).2 r isKept
  rcases receiverType_eq_ok named with ⟨isType, -⟩ | ⟨t', same, -, rfl⟩
  · cases isType
  · cases same
    exact (Option.mem_some.mp before).symm

theorem bind_assign_refused {t : Term} {target value : Expr} {op : Option BinaryOp}
    (allowed : s.allowsSideEffects = true) (bound : s.bind target = .ok t)
    (unassignable : t.isAssignable = false) (position : Nat) :
    s.bind (.assign position target op value) = .error (.notAssignable .target) := by
  simp only [Scope.bind, allowed, Bool.not_true, Bool.false_eq_true, if_false, bound, ok_bind,
    checkTarget, unassignable]
  rfl

theorem ThisPath.bind_eq (path : s.ThisPath expr fields) (ofInstance : s.frame.isStatic = false) :
    s.bind expr = .ok (s.this.follow fields) := by
  induction path with
  | this position => simp [Scope.bind, thisTerm, ofInstance, Term.follow]
  | own position noLocal noParameter finds ofObject =>
    have named := simpleNameTerm?_ownField ofInstance noLocal noParameter finds ofObject
    simp only [Scope.bind, nameTerm, named, ok_bind]
    rfl
  | field position path typed value finds ofObject ih =>
    rw [Term.follow_concat]
    simp only [Scope.bind, ih, Scope.receiver, ok_bind]
    exact memberTerm_field typed finds ofObject

end Scope

end DebugExpr.Bound

namespace DebugExpr.Code
open Metadata Source DebugExpr.Bound

/-- Follows fields with an instruction for each, from what the code pushes. -/
def followWith (op : Opcode) (code : Block) (fields : List MemberRef) : Block :=
  fields.foldl (fun code f => code ++ .onMember op f.displayField) code

theorem followWith_concat (op : Opcode) (code : Block) (fields : List MemberRef) (f : MemberRef) :
    followWith op code (fields ++ [f]) =
      followWith op code fields ++ .onMember op f.displayField := by
  simp [followWith]

/-- Pushes a copy of the value to which argument 0 refers. -/
def pushThis (type : ClosedType) : Block :=
  .form (.loadArgument 0) ++ .onMember .ldobj type.display

section Within
variable {t : Term} {type : ClosedType}

/-- Binding does not take `this`, nor a field in it, for a variable. -/
theorem not_isAssignable_within (lies : liesInThis t = true) : t.isAssignable = false := by
  induction t using Term.induction with
  | this type => rfl
  | field receiver f ih =>
    obtain ⟨value, lies⟩ := Bool.and_eq_true_iff.mp lies
    simpa [Term.isAssignable, value] using ih lies
  | _ => cases lies

theorem not_isAddressable_within (lies : liesInThis t = true) : t.isAddressable = false := by
  have unassignable := not_isAssignable_within lies
  cases t with
  | this | field => exact unassignable
  | _ => cases lies

theorem place?_within (lies : liesInThis t = true) : (place? t).isSome := by
  induction t using Term.induction with
  | this type =>
    have value : type.isValueType = true := lies
    simp [place?, value]
  | field receiver f ih =>
    obtain ⟨value, lies⟩ := Bool.and_eq_true_iff.mp lies
    simpa [place?, value] using ih lies
  | _ => cases lies

/-- The address of what lies in `this` is that of a copy. -/
theorem address_within (lies : liesInThis t = true) (typed : t.type? = some type) :
    (lower t).address = (lower t).value ++ .spill type := by
  cases t with
  | this => exact spill_eq typed _
  | field receiver? f =>
    cases receiver? with
    | none => cases lies
    | some receiver =>
      obtain ⟨value, lies⟩ := Bool.and_eq_true_iff.mp lies
      have addressless := not_isAddressable_within lies
      obtain ⟨whole, typedWhole, isValue⟩ := (Option.any_eq_true _ _).mp value
      simp [lower, typedWhole, ClosedType.isReferenceType, isValue, addressless, spill_eq typed]
  | _ => cases lies

theorem operands_within {p : Place} (lies : liesInThis t = true) (denotes : place? t = some p) :
    p.operands = [] := by
  induction t using Term.induction generalizing p with
  | this type =>
    have value : type.isValueType = true := lies
    obtain rfl : .referenced 0 type = p := by simpa [place?, value] using denotes
    rfl
  | field receiver f ih =>
    obtain ⟨value, lies⟩ := Bool.and_eq_true_iff.mp lies
    obtain ⟨whole, denotesWhole, rfl⟩ :
        ∃ whole, place? receiver = some whole ∧ whole.within f = p := by
      simpa [place?, value] using denotes
    have operands : whole.operands = [] := ih lies denotesWhole
    exact operands
  | _ => cases lies

theorem callBehind_injective {u r : Term} {declaring : ClosedType} {code code' : Block}
    (calls : receiver? u = some (r, declaring)) (same : callBehind u code = callBehind u code') :
    code = code' := by
  cases u with
  | property => exact (Block.seq.inj same).1
  | call => exact (Block.seq.inj (Block.seq.inj same).1).1
  | _ => cases calls

/-- No member of a value that lies in `this` is called on the value in its place. -/
theorem not_called_in_place {u : Term} {declaring : ClosedType} {p : Place}
    (lies : liesInThis t = true) (denotes : place? t = some p) (typed : t.type? = some type)
    (value : type.isValueType = true) (calls : receiver? u = some (t, declaring)) :
    (lower u).value ≠ callBehind u p.address := by
  rw [(receiver?_eq_some calls).2.2, pushReceiver_value typed value, address_within lies typed]
  intro same
  have temporaries := congrArg Block.temporaries (callBehind_injective calls same)
  rw [p.address_temporaries, operands_within lies denotes, temporaries_append] at temporaries
  exact List.append_ne_nil_of_right_ne_nil _ (List.cons_ne_nil type []) temporaries

theorem value_within {f : MemberRef} (lies : liesInThis t = true) :
    (lower (.field (some t) f)).value = (lower t).value ++ .onMember .ldfld f.displayField := by
  simp [lower, pushReceiver, not_isAddressable_within lies]

end Within

/-- The term is where the fields lead in the value to which argument 0 refers. It has its place
there, and is read field by field from a copy of the value. -/
structure InThis (whole : ClosedType) (fields : List MemberRef) (t : Term) : Prop where
  lies : liesInThis t = true
  place : ∃ p, place? t = some p ∧
    p.address = followWith .ldflda (.form (.loadArgument 0)) fields
  value : (lower t).value = followWith .ldfld (pushThis whole) fields

theorem inThis_this {type : ClosedType} (value : type.isValueType = true) :
    InThis type [] (.this type) where
  lies := value
  place := ⟨.referenced 0 type, by simp [place?, value], rfl⟩
  value := by simp [lower, Lowering.readOnly, value, pushThis, followWith]

theorem InThis.field {whole type : ClosedType} {fields : List MemberRef} {t : Term}
    (inside : InThis whole fields t) (typed : t.type? = some type) (value : type.isValueType = true)
    (f : MemberRef) : InThis whole (fields ++ [f]) (.field (some t) f) where
  lies := by simp [liesInThis, typed, value, inside.lies]
  place := by
    obtain ⟨p, denotes, reaches⟩ := inside.place
    refine ⟨.within p f, by simp [place?, typed, value, denotes], ?_⟩
    rw [Place.address, reaches, followWith_concat]
  value := by rw [value_within inside.lies, inside.value, followWith_concat]

variable {s : Scope} {expr : Expr} {fields : List MemberRef}

theorem inThis_thisPath (value : s.frame.containing.isValueType = true)
    (path : s.ThisPath expr fields) :
    InThis s.frame.containing fields (s.this.follow fields) := by
  induction path with
  | this => exact inThis_this value
  | own => exact (inThis_this value).field rfl value _
  | field position path typed isValue _ _ ih =>
    rw [Term.follow_concat]
    exact ih.field typed isValue _

/-- In a method of a value type a path of fields from `this` is bound, denotes a place to which
argument 0 leads, and is read from there. But it may not be assigned to, and a member of a value at
its end is called on the address of a copy in a temporary. -/
theorem thisPath_copied (ofInstance : s.frame.isStatic = false)
    (value : s.frame.containing.isValueType = true) (path : s.ThisPath expr fields) :
    ∃ t, s.bind expr = .ok t ∧
      (∃ p, place? t = some p ∧
        p.address = followWith .ldflda (.form (.loadArgument 0)) fields) ∧
      (lower t).value = followWith .ldfld (pushThis s.frame.containing) fields ∧
      (t.isAssignable = false ∧ t.isAddressable = false) ∧
      (s.allowsSideEffects = true → ∀ position op value,
        s.bind (.assign position expr op value) = .error (.notAssignable .target)) ∧
      ∀ u type declaring, receiver? u = some (t, declaring) → t.type? = some type →
        type.isValueType = true →
        (lower u).value = callBehind u ((lower t).value ++ .spill type) := by
  have bound := path.bind_eq ofInstance
  have inside := inThis_thisPath value path
  have unassignable := not_isAssignable_within inside.lies
  refine ⟨_, bound, inside.place, inside.value,
    ⟨unassignable, not_isAddressable_within inside.lies⟩, ?_, ?_⟩
  · intro allowed position op value
    exact Scope.bind_assign_refused allowed bound unassignable position
  · intro u type declaring calls typed isValue
    rw [(receiver?_eq_some calls).2.2, pushReceiver_value typed isValue,
      address_within inside.lies typed]

section Instance
open Sample

/-- A value type with a field of the value type `Meter`: `struct Dial { Meter Inner; void Turn(); }`.
-/
def dial : TypeDefinition :=
  TypeDeclaration.define
    { fullName := "Dial"
      kind := .valueType
      fields := [⟨"Inner", .plain "Meter", false⟩]
      methods := [⟨"Turn", false, [], [], none⟩] }
    (.typeDefinition 3)

/-- The process is suspended in `Dial.Turn`. -/
def dialScope : Scope :=
  { scope [] [] with
    snapshot :=
      (Snapshot.empty.add core).add
        (.ofDefinitions ⟨"App", ⟨1, 0, 0, 0⟩, none, none⟩ [valueRoot, meter, dial])
    frame := ⟨⟨1⟩, .named ⟨1⟩ dial [], "Turn", false, [], []⟩ }

/-- The member is a field of objects. -/
def isInstanceField : Bound.Member → Bool
  | .field f => !f.isStatic
  | _ => false

theorem eq_field {member : Bound.Member} (isField : isInstanceField member = true) :
    ∃ f, member = .field f ∧ f.isStatic = false := by
  cases member with
  | field f => exact ⟨f, rfl, by simpa [isInstanceField] using isField⟩
  | property | methods => cases isField

/-- The path `this.Inner`. -/
def innerOfThis : Expr :=
  .member 0 (.this 0) "Inner" []

/-- The bare name `Inner` is bound and refused as a target. -/
theorem inner_refused : ∃ t, dialScope.bind (.name 0 "Inner" []) = .ok t ∧
    (place? t).isSome ∧ t.isAssignable = false ∧
    dialScope.bind (.assign 0 (.name 0 "Inner" []) none (.this 0)) =
      .error (.notAssignable .target) := by
  obtain ⟨found, finds, isField⟩ : ∃ found,
      dialScope.findMember dialScope.frame.containing "Inner" false = .ok found ∧
        found.any isInstanceField = true :=
    exists_ok_of_any (by decide +kernel)
  obtain ⟨member, rfl, isField⟩ := (Option.any_eq_true ..).mp isField
  obtain ⟨f, rfl, ofObject⟩ := eq_field isField
  have path : dialScope.ThisPath (.name 0 "Inner" []) [f] := .own 0 rfl rfl finds ofObject
  obtain ⟨t, bound, ⟨p, denotes, -⟩, -, ⟨unassignable, -⟩, refused, -⟩ :=
    thisPath_copied rfl rfl path
  exact ⟨t, bound, by simp [denotes], unassignable, refused rfl 0 none (.this 0)⟩

/-- The property of `this.Inner.Level` is not read from the place of `this.Inner`, and `this.Inner`
is refused as a target. -/
theorem innerOfThis_not_in_place : ∃ t u declaring p,
    dialScope.bind innerOfThis = .ok t ∧
      dialScope.bind (.member 0 innerOfThis "Level" []) = .ok u ∧
      receiver? u = some (t, declaring) ∧ place? t = some p ∧
      (lower u).value ≠ callBehind u p.address ∧
      dialScope.bind (.assign 0 innerOfThis none innerOfThis) =
        .error (.notAssignable .target) := by
  obtain ⟨t, bound, kinds⟩ : ∃ t, dialScope.bind innerOfThis = .ok t ∧
      (liesInThis t && t.type?.any ClosedType.isValueType) = true :=
    exists_ok_of_any (by decide +kernel)
  obtain ⟨lies, isValue⟩ := Bool.and_eq_true_iff.mp kinds
  obtain ⟨type, typed, value⟩ := (Option.any_eq_true _ _).mp isValue
  obtain ⟨p, denotes⟩ := Option.isSome_iff_exists.mp (place?_within lies)
  obtain ⟨u, reads, calls⟩ : ∃ u, dialScope.bind (.member 0 innerOfThis "Level" []) = .ok u ∧
      (receiver? u).isSome = true :=
    exists_ok_of_any (by decide +kernel)
  obtain ⟨⟨r, declaring⟩, calls⟩ := Option.isSome_iff_exists.mp calls
  have member : dialScope.memberTerm (.value t) "Level" [] = .ok u := by
    simpa [Scope.bind, bound, Scope.receiver] using reads
  obtain rfl : r = t := Scope.memberTerm_receiver member (receiver?_eq_some calls).1
  exact ⟨r, u, declaring, p, bound, reads, calls, denotes,
    not_called_in_place lies denotes typed value calls,
    Scope.bind_assign_refused rfl bound (not_isAssignable_within lies) 0⟩

end Instance

end DebugExpr.Code
