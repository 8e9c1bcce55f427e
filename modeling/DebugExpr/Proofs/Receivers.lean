import DebugExpr.Proofs.Places

/-! Receivers. A member of a value type is called on the address of a value, in its place if it has
one and else in a copy, and any other member on an object. Code pushes a receiver by the type of the
receiver itself, so it pushes what the member is called on where that type is of the same kind as
the one that declares the member. A member that a value type inherits from a class is of the other
kind. -/
namespace DebugExpr.Code
open Metadata DebugExpr.Bound

/-- What the code of a receiver has to push for a member of the declaring type. -/
inductive CalledOn (receiver : Term) (declaring : ClosedType) : Block → Prop
  | place {p : Place} (value : declaring.isValueType = true) (denotes : place? receiver = some p) :
    CalledOn receiver declaring p.address
  | copy {type : ClosedType} (value : declaring.isValueType = true)
    (typed : receiver.type? = some type) (rootless : place? receiver = none) :
    CalledOn receiver declaring ((lower receiver).value ++ .spill type)
  | boxed {type : ClosedType} (reference : declaring.isValueType = false)
    (typed : receiver.type? = some type) (value : type.isValueType = true) :
    CalledOn receiver declaring ((lower receiver).value ++ .onMember .box type.display)
  | object {type : ClosedType} (reference : declaring.isValueType = false)
    (typed : receiver.type? = some type) (object : type.isValueType = false) :
    CalledOn receiver declaring (lower receiver).value

/-- The receiver of a node that calls a member on one, and the type that declares the member. -/
def receiver? : Term → Option (Term × ClosedType)
  | .property receiver p => receiver.map fun r => (r, p.declaring)
  | .call receiver m _ => receiver.map fun r => (r, m.declaring)
  | _ => none

/-- The code of such a node, after code that pushes the receiver. -/
def callBehind : Term → Block → Block
  | .property receiver p, pushed => pushed ++ .call (callOpcode receiver) (.getter p true)
  | .call receiver m args, pushed =>
    pushed ++ pushArguments args ++ .call (callOpcode receiver) (.method m)
  | _, pushed => pushed

/-- The term is the value on which the frame's method was called, or lies in it. -/
def liesInThis : Term → Bool
  | .this type => type.isValueType
  | .field (some receiver) _ => receiver.type?.any ClosedType.isValueType && liesInThis receiver
  | _ => false

variable {s : Scope} {t r : Term} {type declaring : ClosedType}

theorem isAssignable_of_place {p : Place} (formed : t.WellFormed s) (denotes : place? t = some p)
    (outside : liesInThis t = false) : t.isAssignable = true := by
  induction t using Term.induction generalizing p with
  | localVar | parameter | staticField | element => rfl
  | this type => simp_all [place?, liesInThis]
  | pseudo o =>
    have storage : o.hasStorage = true := by
      by_contra none
      simp [place?, none] at denotes
    exact formed.node.trans storage
  | field receiver f ih =>
    have formedReceiver := formed.parts receiver (by simp [Term.parts])
    cases value : receiver.type?.any ClosedType.isValueType with
    | true =>
      obtain ⟨whole, denotes, -⟩ : ∃ whole, place? receiver = some whole ∧ whole.within f = p := by
        simpa [place?, value] using denotes
      have outside : liesInThis receiver = false := by simpa [liesInThis, value] using outside
      simpa [Term.isAssignable, value] using ih formedReceiver denotes outside
    | false => simp [Term.isAssignable, value]
  | null | constant | staticProperty | property | staticCall | call | conversion | negate | binary
  | coalesce | assign | compound => cases denotes

theorem spill_eq (typed : t.type? = some type) (code : Block) :
    spill t code = code ++ .spill type := by
  simp [spill, withType, typed]

/-- The address of a term without a place is that of a copy. -/
theorem address_of_no_place (formed : t.WellFormed s) (rootless : place? t = none)
    (typed : t.type? = some type) : (lower t).address = (lower t).value ++ .spill type := by
  cases t with
  | localVar | element => cases rootless
  | parameter index byRef => cases byRef <;> cases rootless
  | pseudo o =>
    have none : o.hasStorage = false := by simpa [place?] using rootless
    simp [lower, none, Lowering.readOnly, spill_eq typed]
  | field receiver? f =>
    cases receiver? with
    | none => cases rootless
    | some receiver =>
      have formedReceiver := formed.parts receiver (by simp [Term.parts])
      obtain ⟨whole, typedWhole⟩ := Option.isSome_iff_exists.mp (formed.node.2 receiver rfl)
      cases value : whole.isValueType with
      | false => simp [place?, typedWhole, value] at rootless
      | true =>
        have rootless : place? receiver = none := by
          simpa [place?, typedWhole, value] using rootless
        have addressless : receiver.isAddressable = false := by
          rw [isAddressable_eq formedReceiver, Bool.eq_false_iff]
          intro assignable
          obtain ⟨p, denotes, -⟩ := lower_place formedReceiver assignable
          cases rootless.symm.trans denotes
        simp [lower, typedWhole, ClosedType.isReferenceType, value, addressless, spill_eq typed]
  | property receiver? p => cases receiver? <;> exact spill_eq typed _
  | call receiver? m args => cases receiver? <;> exact spill_eq typed _
  | _ => exact spill_eq typed _

theorem receiver_calledOn (formed : r.WellFormed s) (typed : r.type? = some type)
    (sameKind : type.isValueType = declaring.isValueType) (outside : liesInThis r = false) :
    CalledOn r declaring (pushReceiver r (lower r) true) := by
  cases value : type.isValueType with
  | true =>
    rw [pushReceiver_value typed value]
    cases denotes : place? r with
    | some p =>
      obtain ⟨q, denotes', lowered⟩ :=
        lower_place formed (isAssignable_of_place formed denotes outside)
      obtain rfl := Option.some.inj (denotes.symm.trans denotes')
      rw [lowered.address]
      exact .place (sameKind.symm.trans value) denotes
    | none =>
      rw [address_of_no_place formed denotes typed]
      exact .copy (sameKind.symm.trans value) typed denotes
  | false =>
    rw [pushReceiver_reference typed value]
    exact .object (sameKind.symm.trans value) typed value

/-- The block boxes a value at its end. -/
def Block.boxes : Block → Bool
  | .seq _ (.plain .box _) => true
  | _ => false

theorem spill_boxes (t : Term) (code : Block) : (spill t code).boxes = false := by
  unfold spill withType
  split <;> rfl

theorem readOnly_boxes (t : Term) (code : Block) :
    (Lowering.readOnly t code).address.boxes = false :=
  spill_boxes t code

theorem address_boxes (t : Term) : (lower t).address.boxes = false := by
  cases t with
  | localVar => rfl
  | parameter index byRef => cases byRef <;> rfl
  | pseudo o =>
    simp only [lower]
    split
    · rfl
    · exact readOnly_boxes _ _
  | field receiver? f =>
    cases receiver? with
    | none => rfl
    | some receiver =>
      simp only [lower]
      split
      · rfl
      · exact spill_boxes _ _
  | element array indices type =>
    simp only [lower, pushElementAddress, callElement]
    split
    · rfl
    · split <;> rfl
  | property receiver? p => cases receiver? <;> exact readOnly_boxes _ _
  | call receiver? m args => cases receiver? <;> exact readOnly_boxes _ _
  | _ => exact readOnly_boxes _ _

/-- A value is never pushed as a member that it inherits from a class is called on it. -/
theorem inherited_not_calledOn (typed : r.type? = some type) (value : type.isValueType = true)
    (reference : declaring.isValueType = false) :
    ¬ CalledOn r declaring (pushReceiver r (lower r) true) := by
  rw [pushReceiver_value typed value]
  generalize isCode : (lower r).address = code
  rintro (⟨declaredByValue, -⟩ | ⟨declaredByValue, -, -⟩ | _ | ⟨-, typed', isObject⟩)
  · cases reference.symm.trans declaredByValue
  · cases reference.symm.trans declaredByValue
  · cases (address_boxes r).symm.trans (congrArg Block.boxes isCode)
  · obtain rfl := Option.some.inj (typed.symm.trans typed')
    cases value.symm.trans isObject

theorem receiver?_eq_some {u : Term} (calls : receiver? u = some (r, declaring)) :
    r ∈ u.parts ∧ (∀ s, u.Formed s → r.type?.isSome) ∧
      (lower u).value = callBehind u (pushReceiver r (lower r) true) := by
  cases u with
  | property receiver p =>
    obtain ⟨_, rfl, made⟩ := Option.map_eq_some_iff.mp calls
    obtain ⟨rfl, -⟩ := Prod.mk.inj made
    exact ⟨by simp [Term.parts], fun _ formed => formed.2 _ rfl, rfl⟩
  | call receiver m args =>
    obtain ⟨_, rfl, made⟩ := Option.map_eq_some_iff.mp calls
    obtain ⟨rfl, -⟩ := Prod.mk.inj made
    exact ⟨by simp [Term.parts], fun _ formed => formed.2.1 _ rfl, rfl⟩
  | _ => cases calls

/-- In a bound term a receiver is pushed as the member is called on it, where the types of the two
are of the same kind and the receiver is not in the value on which the frame's method was called. -/
theorem bound_receiver_calledOn {expr : Source.Expr} {u : Term} (bound : s.bind expr = .ok t)
    (inside : u ∈ t.subterms) (calls : receiver? u = some (r, declaring))
    (sameKind : r.type?.any ClosedType.isValueType = declaring.isValueType)
    (outside : liesInThis r = false) :
    ∃ code, CalledOn r declaring code ∧ (lower u).value = callBehind u code := by
  have formed := (Scope.bind_wellFormed bound).subterm inside
  obtain ⟨part, typed, pushed⟩ := receiver?_eq_some calls
  obtain ⟨type, typed⟩ := Option.isSome_iff_exists.mp (typed s formed.node)
  have sameKind : type.isValueType = declaring.isValueType := by simpa [typed] using sameKind
  exact ⟨_, receiver_calledOn (formed.parts r part) typed sameKind outside, pushed⟩

section Instance
open Sample Source

/-- The class that value types are derived from, with a method that they inherit. -/
def valueRoot : TypeDefinition :=
  TypeDeclaration.define
    { fullName := "System.ValueType"
      kind := .classType
      methods := [⟨"GetHashCode", false, [], [], some (.ofPrimitive .int32)⟩] }
    (.typeDefinition 1)

/-- A value type with a property of its own. -/
def meter : TypeDefinition :=
  TypeDeclaration.define
    { fullName := "Meter"
      kind := .valueType
      properties := [⟨"Level", .ofPrimitive .int32, false⟩] }
    (.typeDefinition 2)

/-- A value of the type is in the local `m`. -/
def meterScope : Scope :=
  { scope [] [⟨"m", .named ⟨1⟩ meter []⟩] with
    snapshot :=
      (Snapshot.empty.add core).add
        (.ofDefinitions ⟨"App", ⟨1, 0, 0, 0⟩, none, none⟩ [valueRoot, meter]) }

/-- A property of its own is read from the place of the value: `m.Level`. -/
theorem levelOfMeter_calledOn : ∃ t r declaring code,
    meterScope.bind (.member 0 (.name 0 "m" []) "Level" []) = .ok t ∧
      receiver? t = some (r, declaring) ∧ declaring.isValueType = true ∧
      CalledOn r declaring code ∧ (lower t).value = callBehind t code := by
  obtain ⟨t, bound, calls⟩ : ∃ t, meterScope.bind (.member 0 (.name 0 "m" []) "Level" []) = .ok t ∧
      (receiver? t).any (fun x =>
        x.1.type?.any ClosedType.isValueType && x.2.isValueType && !liesInThis x.1) = true :=
    exists_ok_of_any (by decide +kernel)
  obtain ⟨⟨r, declaring⟩, calls, kinds⟩ := (Option.any_eq_true _ _).mp calls
  obtain ⟨⟨value, declaredByValue⟩, outside⟩ :
      (r.type?.any ClosedType.isValueType = true ∧ declaring.isValueType = true) ∧
        liesInThis r = false := by
    simpa using kinds
  obtain ⟨code, calledOn, pushed⟩ := bound_receiver_calledOn bound t.self_mem_subterms calls
    (value.trans declaredByValue.symm) outside
  exact ⟨t, r, declaring, code, bound, calls, declaredByValue, calledOn, pushed⟩

/-- An inherited method would have to be called on an object, and is called on the address of the
value: `m.GetHashCode()`. -/
theorem hashOfMeter_not_calledOn : ∃ t r declaring code,
    meterScope.bind (.invoke 0 (.member 0 (.name 0 "m" []) "GetHashCode" []) []) = .ok t ∧
      receiver? t = some (r, declaring) ∧ declaring.isReferenceType = true ∧
      (lower t).value = callBehind t code ∧ ¬ CalledOn r declaring code := by
  obtain ⟨t, bound, calls⟩ : ∃ t,
      meterScope.bind (.invoke 0 (.member 0 (.name 0 "m" []) "GetHashCode" []) []) = .ok t ∧
      (receiver? t).any (fun x =>
        x.1.type?.any ClosedType.isValueType && x.2.isReferenceType) = true :=
    exists_ok_of_any (by decide +kernel)
  obtain ⟨⟨r, declaring⟩, calls, kinds⟩ := (Option.any_eq_true _ _).mp calls
  obtain ⟨value, reference⟩ := Bool.and_eq_true_iff.mp kinds
  obtain ⟨type, typed, value⟩ := (Option.any_eq_true _ _).mp value
  have byClass : declaring.isValueType = false := by
    simpa [ClosedType.isReferenceType] using reference
  exact ⟨t, r, declaring, _, bound, calls, reference, (receiver?_eq_some calls).2.2,
    inherited_not_calledOn typed value byClass⟩

end Instance

end DebugExpr.Code
