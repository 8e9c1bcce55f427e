import DebugExpr.Code.Lower
import DebugExpr.Proofs.BareBlocks
import DebugExpr.Proofs.BoundTerms
import DebugExpr.Proofs.SampleScope

/-! Places. A term that may be written denotes storage: a variable, an element of an array, a field
of an object, or a field of a value that has a place itself. The code that takes its address or
stores into it begins at the storage from which the place is reached and follows the fields from
there, so that no copy of a value is made on the way. -/
namespace DebugExpr.Code
open Metadata DebugExpr.Bound

/-- Storage that terms denote. -/
inductive Place where
  | localVar (index : Nat)
  | argument (index : Nat)
  /-- What an argument refers to. -/
  | referenced (index : Nat) (type : ClosedType)
  /-- A declared variable, whose address an accessor returns. -/
  | declared (o : Pseudo.Occurrence)
  | staticField (f : MemberRef)
  | element (array : Term) (indices : List Term) (type : ClosedType)
  /-- A field of an object. -/
  | ofObject (object : Term) (f : MemberRef)
  /-- A field of a value that has a place. -/
  | within (whole : Place) (f : MemberRef)

namespace Place

/-- Pushes the address: the one from which the place is reached, and the fields on the way. -/
def address : Place → Block
  | localVar index => .form (.loadLocalAddress index)
  | argument index => .form (.loadArgumentAddress index)
  | referenced index _ => .form (.loadArgument index)
  | declared o => callAccessor o
  | staticField f => .onMember .ldsflda f.displayField
  | element array indices type =>
    (lower array).value ++ pushAll indices ++ pushElementAddress type indices.length
  | ofObject object f => (lower object).value ++ .onMember .ldflda f.displayField
  | within whole f => whole.address ++ .onMember .ldflda f.displayField

/-- Pushes what a store into the place needs below the value. -/
def beforeStore : Place → Block
  | localVar _ | argument _ | staticField _ => .skip
  | referenced index _ => .form (.loadArgument index)
  | declared o => callAccessor o
  | element array indices _ => (lower array).value ++ pushAll indices
  | ofObject object _ => (lower object).value
  | within whole _ => whole.address

/-- Stores the value on the stack. -/
def store : Place → Block
  | localVar index => .form (.storeLocal index)
  | argument index => .form (.storeArgument index)
  | referenced _ type => popIndirect type
  | declared o => popIndirect o.type
  | staticField f => .onMember .stsfld f.displayField
  | element _ indices type => popElement type indices.length
  | ofObject _ f | within _ f => .onMember .stfld f.displayField

/-- The terms that are evaluated to reach the place. -/
def operands : Place → List Term
  | element array indices _ => array :: indices
  | ofObject object _ => [object]
  | within whole _ => whole.operands
  | _ => []

end Place

/-- The storage that a term denotes. A field of a value has one if the value has. -/
def place? : Term → Option Place
  | .localVar index _ => some (.localVar index)
  | .parameter index false _ => some (.argument index)
  | .parameter index true type => some (.referenced index type)
  | .this type => if type.isValueType then some (.referenced 0 type) else none
  | .pseudo o => if o.hasStorage then some (.declared o) else none
  | .field none f => some (.staticField f)
  | .field (some receiver) f =>
    if receiver.type?.any ClosedType.isValueType then (place? receiver).map (.within · f)
    else some (.ofObject receiver f)
  | .element array indices type => some (.element array indices type)
  | _ => none

/-- The code of a term goes to the place and nowhere else. -/
structure Place.Lowered (p : Place) (l : Lowering) : Prop where
  address : l.address = p.address
  beforeStore : l.beforeStore = p.beforeStore
  store : l.store = p.store

section Temporaries

theorem pushAll_temporaries (ts : List Term) :
    (pushAll ts).temporaries = ts.flatMap fun t => (lower t).value.temporaries := by
  induction ts with
  | nil => rfl
  | cons t rest ih => simp only [pushAll, temporaries_append, ih, List.flatMap_cons]

theorem callAccessor_temporaries (o : Pseudo.Occurrence) : (callAccessor o).temporaries = [] := by
  rw [callAccessor, temporaries_append, (pushArgument_bare o.call.argument).temporaries]
  rfl

/-- Only the terms that are evaluated to reach the place use temporaries. -/
theorem Place.address_temporaries (p : Place) :
    p.address.temporaries = p.operands.flatMap fun t => (lower t).value.temporaries := by
  induction p with
  | localVar | argument | referenced | staticField => rfl
  | declared o => exact callAccessor_temporaries o
  | element array indices type =>
    simp [address, operands, temporaries_append, pushAll_temporaries,
      (pushElementAddress_bare type indices.length).temporaries]
  | ofObject object f =>
    simp [address, operands, temporaries_append, Block.onMember, Block.temporaries]
  | within whole f ih =>
    simp [address, operands, temporaries_append, ih, Block.onMember, Block.temporaries]

theorem Place.beforeStore_temporaries (p : Place) :
    p.beforeStore.temporaries = p.operands.flatMap fun t => (lower t).value.temporaries := by
  cases p with
  | localVar | argument | referenced | staticField => rfl
  | declared o => exact callAccessor_temporaries o
  | element array indices type =>
    simp [beforeStore, operands, temporaries_append, pushAll_temporaries]
  | ofObject object f => simp [beforeStore, operands]
  | within whole f => exact whole.address_temporaries

end Temporaries

section Receivers
variable {r : Term} {type : ClosedType} (typed : r.type? = some type)
include typed

theorem pushReceiver_value (value : type.isValueType = true) (l : Lowering) :
    pushReceiver r l true = l.address := by
  simp [pushReceiver, typed, value]

theorem pushReceiver_reference (reference : type.isValueType = false) (l : Lowering)
    (needsAddress : Bool) : pushReceiver r l needsAddress = l.value := by
  simp [pushReceiver, typed, reference]

end Receivers

theorem isAddressable_eq {s : Scope} {t : Term} (formed : t.WellFormed s) :
    t.isAddressable = t.isAssignable := by
  cases t with
  | pseudo o => exact formed.node.symm
  | _ => rfl

/-- A term that may be written denotes a place, and its code goes there. -/
theorem lower_place {s : Scope} {t : Term} (formed : t.WellFormed s)
    (assignable : t.isAssignable = true) : ∃ p, place? t = some p ∧ p.Lowered (lower t) := by
  induction t using Term.induction with
  | localVar index type => exact ⟨_, rfl, rfl, rfl, rfl⟩
  | parameter index byRef type => cases byRef <;> exact ⟨_, rfl, rfl, rfl, rfl⟩
  | pseudo o =>
    have storage : o.hasStorage = true := formed.node.symm.trans assignable
    refine ⟨.declared o, by simp [place?, storage], ?_⟩
    constructor <;> rw [lower_stored storage] <;> rfl
  | staticField f => exact ⟨_, rfl, rfl, rfl, rfl⟩
  | field receiver f ih =>
    have formedReceiver := formed.parts receiver (by simp [Term.parts])
    obtain ⟨type, typed⟩ := Option.isSome_iff_exists.mp (formed.node.2 receiver rfl)
    cases value : type.isValueType with
    | true =>
      have assignable : receiver.isAssignable = true := by
        simpa [Term.isAssignable, typed, value] using assignable
      have addressable := (isAddressable_eq formedReceiver).trans assignable
      obtain ⟨p, denotes, lowered⟩ := ih formedReceiver assignable
      have pushed : pushReceiver receiver (lower receiver) true = p.address :=
        (pushReceiver_value typed value _).trans lowered.address
      refine ⟨.within p f, by simp [place?, typed, value, denotes], ?_, pushed, rfl⟩
      simp [lower, addressable, pushed, Place.address]
    | false =>
      have pushed : pushReceiver receiver (lower receiver) true = (lower receiver).value :=
        pushReceiver_reference typed value _ true
      refine ⟨.ofObject receiver f, by simp [place?, typed, value], ?_, pushed, rfl⟩
      simp [lower, typed, ClosedType.isReferenceType, value, pushed, Place.address]
  | element array indices type => exact ⟨_, rfl, rfl, rfl, rfl⟩
  | null | constant | this | staticProperty | property | staticCall | call | conversion | negate
  | binary | coalesce | assign | compound => cases assignable

/-- The variables that a node writes itself or hands out by reference. -/
def written : Term → List Term
  | .assign target .. | .compound _ target .. => [target]
  | .call _ _ args => (args.filter (·.1)).map (·.2)
  | _ => []

theorem written_assignable {s : Scope} {t : Term} (formed : t.Formed s) :
    ∀ u ∈ written t, u.isAssignable = true := by
  cases t with
  | assign target | compound op target =>
    rintro u (_ | ⟨_, ⟨⟩⟩)
    exact formed.1
  | call receiver m args =>
    obtain ⟨-, -, -, passed⟩ := formed
    intro u handed
    obtain ⟨arg, filtered, rfl⟩ := List.mem_map.mp handed
    obtain ⟨isArg, byRef⟩ := List.mem_filter.mp filtered
    exact (passed arg isArg).2 byRef
  | _ => simp [written]

/-- What a node of a bound term writes or hands out may be written, and the code of whatever may be
written goes to its place, with no temporary but those of the terms from which the place is
reached. -/
theorem bound_place {s : Scope} {expr : Source.Expr} {t : Term} (bound : s.bind expr = .ok t) :
    ∀ u ∈ t.subterms, (∀ v ∈ written u, v.isAssignable = true) ∧
      (u.isAssignable = true → ∃ p, place? u = some p ∧ p.Lowered (lower u) ∧
        (lower u).address.temporaries = p.operands.flatMap (fun v => (lower v).value.temporaries) ∧
        (lower u).beforeStore.temporaries =
          p.operands.flatMap fun v => (lower v).value.temporaries) := by
  intro u inside
  have formed := (Scope.bind_wellFormed bound).subterm inside
  refine ⟨written_assignable formed.node, fun assignable => ?_⟩
  obtain ⟨p, denotes, lowered⟩ := lower_place formed assignable
  refine ⟨p, denotes, lowered, ?_, ?_⟩
  · rw [lowered.address, p.address_temporaries]
  · rw [lowered.beforeStore, p.beforeStore_temporaries]

section Instance
open Sample Source

/-- A value type with a field. -/
def spot : TypeDefinition :=
  TypeDeclaration.define
    { fullName := "Spot", kind := .valueType, fields := [⟨"X", .ofPrimitive .int32, false⟩] }
    (.typeDefinition 1)

/-- A value type with a field of the former. -/
def leg : TypeDefinition :=
  TypeDeclaration.define
    { fullName := "Leg", kind := .valueType, fields := [⟨"Start", .plain "Spot", false⟩] }
    (.typeDefinition 2)

/-- An array of the latter is in the local `route`. -/
def routeScope : Scope :=
  { scope [] [⟨"route", .array (.named ⟨1⟩ leg []) 1⟩] with
    snapshot :=
      (Snapshot.empty.add core).add (.ofDefinitions ⟨"App", ⟨1, 0, 0, 0⟩, none, none⟩ [spot, leg]) }

/-- The variable `route[0].Start.X`. -/
def startOfLeg : Expr :=
  .member 0 (.member 0 (.index 0 (.name 0 "route" []) [.literal 0 (.integer 0)]) "Start" []) "X" []

/-- The field of a field of an element is reached without a temporary. -/
theorem startOfLeg_place : ∃ t p, routeScope.bind startOfLeg = .ok t ∧ place? t = some p ∧
    (lower t).address = p.address ∧ (lower t).address.temporaries = [] := by
  obtain ⟨t, bound, assignable, idle⟩ : ∃ t, routeScope.bind startOfLeg = .ok t ∧
      t.isAssignable = true ∧
        (place? t).all (fun p => p.operands.all fun v => (lower v).value.temporaries.isEmpty) :=
    exists_ok_of_any (by decide +kernel)
  obtain ⟨p, denotes, lowered, temporaries, -⟩ :=
    (bound_place bound t t.self_mem_subterms).2 assignable
  refine ⟨t, p, bound, denotes, lowered.address, ?_⟩
  rw [temporaries]
  simpa [denotes] using idle

end Instance

end DebugExpr.Code
