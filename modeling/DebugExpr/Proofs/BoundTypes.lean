import DebugExpr.Proofs.BindingInduction
import DebugExpr.Proofs.HeldTypes
import DebugExpr.Proofs.Subterms

/-! Types of bound terms. Where the types of the frame are held, so is every type that a bound term
mentions: those of its nodes, and those with which members are named. -/
namespace DebugExpr.Bound
open Metadata Source

namespace Term

/-- The types that a node states itself. A negation has the type of its operand. -/
def stated : Term → List ClosedType
  | null | negate _ => []
  | constant _ type | localVar _ type | parameter _ _ type | this type => [type]
  | pseudo o => o.type :: o.accessorType :: o.call.typeArgument.toList
  | field _ m | property _ m => [m.declaring, m.type]
  | call _ m _ => m.declaring :: (m.genericArgs ++ m.params.map (·.1) ++ m.returns.toList)
  | element _ _ type | conversion _ _ type | binary _ _ _ type | coalesce _ _ type
  | assign _ _ type | compound _ _ _ type => [type]

/-- All types of a term are held. -/
abbrev Held (s : Snapshot) : Term → Prop :=
  All fun u => ∀ type ∈ u.stated, s.Holds type

variable {s : Snapshot} {t : Term} {type : ClosedType}

theorem Held.leaf (held : ∀ type ∈ t.stated, s.Holds type) (none : t.parts = []) : t.Held s :=
  All.leaf held none

/-- The type of the term is one of those that it states, also below negations. -/
theorem Held.type_holds (held : t.Held s) (typed : t.type? = some type) : s.Holds type := by
  induction t using inductionOnParts with
  | step t ih =>
    cases t with
    | null => cases typed
    | negate operand =>
      have part : operand ∈ (negate operand).parts := by simp [parts]
      exact ih operand part (All.parts held operand part) typed
    | call receiver m args =>
      refine All.node held type ?_
      rw [type?] at typed
      simp [stated, typed]
    | constant | localVar | parameter | this | pseudo | field | property | element | conversion
    | binary | coalesce | assign | compound =>
      obtain rfl := Option.some.inj typed
      exact All.node held _ (by simp [stated])

end Term

namespace Scope
variable {s : Scope} {t t' left right target value : Term} {type wanted : ClosedType}
  {explicit : Bool}

theorem integerTerm_held {n : Int} {p : Primitive} (h : s.integerTerm n p = .ok t) :
    t.Held s.snapshot := by
  obtain ⟨type, named, h⟩ := bind_eq_ok.mp h
  have held := Snapshot.holds_primitive named
  split at h
  all_goals
    obtain rfl := pure_eq_ok.mp h
    exact .leaf (by simpa [Term.stated] using held) rfl

theorem Converted.held (converted : s.Converted t wanted explicit t') (held : t.Held s.snapshot)
    (holds : s.snapshot.Holds wanted) : t'.Held s.snapshot := by
  cases converted with
  | refit refits =>
    obtain ⟨n, p, -, -, -, h⟩ := refit_eq_some refits
    exact integerTerm_held h
  | same => exact held
  | via =>
    exact Term.all_iff.mpr
      ⟨by simpa [Term.stated] using holds, by simpa [Term.parts] using held⟩

theorem promote_held (held : t.Held s.snapshot) (h : s.promote t = .ok t') :
    t'.Held s.snapshot := by
  rcases promote_eq_ok h with ⟨int, named, h⟩ | ⟨-, rfl⟩
  · exact (convert_eq_ok h).held held (Snapshot.holds_primitive named)
  · exact held

/-- A node of two parts that states a single type. -/
theorem held_of_two (two : t.parts = [left, right]) (stated : t.stated = [type])
    (holds : s.snapshot.Holds type) (heldLeft : left.Held s.snapshot)
    (heldRight : right.Held s.snapshot) : t.Held s.snapshot :=
  Term.all_iff.mpr
    ⟨by simpa [stated] using holds, by simpa [two] using ⟨heldLeft, heldRight⟩⟩

theorem arithmetic_held {op : BinaryOp} (heldLeft : left.Held s.snapshot)
    (heldRight : right.Held s.snapshot) (h : s.arithmetic op left right = .ok t) :
    t.Held s.snapshot := by
  obtain ⟨leftType, rightType, typedLeft, typedRight, -, -, made⟩ := arithmetic_eq_ok h
  have holdsLeft := heldLeft.type_holds typedLeft
  have holdsRight := heldRight.type_holds typedRight
  rcases made with ⟨-, rfl⟩ | ⟨left', converts, rfl⟩ | ⟨right', converts, rfl⟩
  · exact held_of_two rfl rfl holdsLeft heldLeft heldRight
  · have heldLeft := (convert?_eq_some converts).held heldLeft holdsRight
    exact held_of_two rfl rfl holdsRight heldLeft heldRight
  · have heldRight := (convert?_eq_some converts).held heldRight holdsLeft
    exact held_of_two rfl rfl holdsLeft heldLeft heldRight

theorem coalesceTerm_held (heldLeft : left.Held s.snapshot) (heldRight : right.Held s.snapshot)
    (h : s.coalesceTerm left right = .ok t) : t.Held s.snapshot := by
  obtain ⟨leftType, typedLeft, -, made⟩ := coalesceTerm_eq_ok h
  rcases made with ⟨right', converts, rfl⟩ | ⟨rightType, left', typedRight, converts, rfl⟩
  · have holds := heldLeft.type_holds typedLeft
    exact held_of_two rfl rfl holds heldLeft ((convert?_eq_some converts).held heldRight holds)
  · have holds := heldRight.type_holds typedRight
    exact held_of_two rfl rfl holds ((convert_eq_ok converts).held heldLeft holds) heldRight

theorem assign_held {op : Option BinaryOp} (heldTarget : target.Held s.snapshot)
    (heldValue : value.Held s.snapshot) (h : s.assign target op value = .ok t) :
    t.Held s.snapshot := by
  obtain ⟨type, value', typed, converts, made⟩ := assign_eq_ok h
  have holds := heldTarget.type_holds typed
  have heldValue := (convert_eq_ok converts).held heldValue holds
  rcases made with ⟨-, rfl⟩ | ⟨operator, -, -, rfl⟩
  · exact held_of_two rfl rfl holds heldTarget heldValue
  · exact held_of_two rfl rfl holds heldTarget heldValue

/-- A field or property is named with held types. -/
theorem access_held {m : MemberRef} {receiver : Option Term}
    (held : s.snapshot.Holds m.declaring ∧ s.snapshot.Holds m.type)
    (heldReceiver : ∀ r ∈ receiver, r.Held s.snapshot)
    (made : t = .field receiver m ∨ t = .property receiver m) : t.Held s.snapshot := by
  rcases made with rfl | rfl
  · exact Term.all_iff.mpr
      ⟨by simpa [Term.stated] using held, by simpa [Term.parts] using heldReceiver⟩
  · exact Term.all_iff.mpr
      ⟨by simpa [Term.stated] using held, by simpa [Term.parts] using heldReceiver⟩

theorem this_held (frame : s.frame.Held s.snapshot) : s.this.Held s.snapshot :=
  .leaf (by simpa [Scope.this, Term.stated] using frame.containing) rfl

theorem named_held (frame : s.frame.Held s.snapshot) {name : String} (named : s.Named name t) :
    t.Held s.snapshot := by
  cases named with
  | localVar found =>
    have held := frame.locals _ (List.mem_of_getElem? (Frame.local?_slot found))
    exact .leaf (by simpa [Term.stated] using held) rfl
  | parameter found =>
    obtain ⟨i, -, found⟩ := Frame.parameter?_slot found
    have held := frame.parameters _ (List.mem_of_getElem? found)
    exact .leaf (by simpa [Term.stated] using held) rfl
  | member finds own =>
    obtain ⟨m, receiver, own, made⟩ := ownMember?_eq_some own
    have heldReceiver : ∀ r ∈ receiver, r.Held s.snapshot := by
      intro r member
      rw [((ownReceiver?_eq_some own).2 r member).1]
      exact this_held frame
    rcases made with ⟨rfl, made⟩ | ⟨rfl, made⟩
    · exact access_held (findMember_held frame.containing finds) heldReceiver (.inl made)
    · exact access_held (findMember_held frame.containing finds) heldReceiver (.inr made)
  | pseudo binds =>
    obtain ⟨type, accessorType, typeArgument⟩ := Pseudo.bind_held binds
    refine .leaf ?_ rfl
    simpa [Term.stated] using ⟨type, accessorType, typeArgument⟩

/-- What is named before a dot has a held type. -/
theorem receiverType_held {name : String} {receiver : Receiver} {found : Option Term}
    (before : s.Before (Term.Held s.snapshot) receiver)
    (h : receiverType name receiver = .ok (found, type)) :
    s.snapshot.Holds type ∧ ∀ r ∈ found, r.Held s.snapshot := by
  rcases receiverType_eq_ok h with ⟨rfl, rfl⟩ | ⟨term, rfl, typed, rfl⟩
  · cases before with
    | type resolves => exact ⟨holds_resolveType _ resolves, by simp⟩
  · cases before with
    | value held => exact ⟨held.type_holds typed, by rintro r ⟨⟩; exact held⟩

theorem memberTerm_held {receiver : Receiver} {name : String} {typeArgs : List TypeExpr}
    (before : s.Before (Term.Held s.snapshot) receiver)
    (h : s.memberTerm receiver name typeArgs = .ok t) : t.Held s.snapshot := by
  obtain ⟨value, type, m, kept, named, keeps, made⟩ := memberTerm_eq_ok h
  obtain ⟨holds, heldValue⟩ := receiverType_held before named
  have heldKept : ∀ r ∈ kept, r.Held s.snapshot :=
    fun r member => heldValue r ((keepReceiver_eq_some keeps).2 r member)
  rcases made with ⟨finds, made⟩ | ⟨finds, made⟩
  · exact access_held (findMember_held holds finds) heldKept (.inl made)
  · exact access_held (findMember_held holds finds) heldKept (.inr made)

theorem fitArgument_held {byRef : Bool} {arg : Bool × Term} (held : arg.2.Held s.snapshot)
    (holds : s.snapshot.Holds type) (h : s.fitArgument byRef type arg = .ok (some t)) :
    t.Held s.snapshot := by
  rcases fitArgument_eq_some h with ⟨-, rfl, -⟩ | ⟨-, converts⟩
  · exact held
  · exact (convert?_eq_some converts).held held holds

/-- The type arguments of a call are written or inferred. -/
theorem methodArgs?_held {site : CallSite} {m : Method} {methodArgs : List ClosedType}
    (written : ∀ type ∈ site.typeArgs, s.snapshot.Holds type)
    (args : ∀ arg ∈ site.args, arg.2.Held s.snapshot) (h : methodArgs? site m = some methodArgs) :
    ∀ type ∈ methodArgs, s.snapshot.Holds type := by
  unfold methodArgs? at h
  split at h
  · split at h
    · obtain rfl := Option.some.inj h
      exact written
    · cases h
  · split at h
    · obtain rfl := Option.some.inj h
      simp
    · refine inferTypeArgs_held ?_ h
      intro arg member type typed
      obtain ⟨passed, isPassed, rfl⟩ := List.mem_map.mp member
      exact (args passed isPassed).type_holds typed

theorem callOf_held {name : String} {site : CallSite} {methods : List Method}
    (declaring : s.snapshot.Holds site.declaring)
    (receiver : ∀ r ∈ site.receiver, r.Held s.snapshot)
    (written : ∀ type ∈ site.typeArgs, s.snapshot.Holds type)
    (args : ∀ arg ∈ site.args, arg.2.Held s.snapshot)
    (h : s.callOf name site methods = .ok t) : t.Held s.snapshot := by
  obtain ⟨m, -, h⟩ := callOf_eq_ok h
  obtain ⟨-, -, methodArgs, fitted, returns, infers, fits, bindsReturns, rfl⟩ := callOf?_eq_some h
  have heldArgs := methodArgs?_held written args infers
  have fitted : ∀ x ∈ fitted, s.snapshot.Holds x.1.1 ∧ x.2.2.Held s.snapshot := by
    intro x member
    obtain ⟨p, -, arg, isArg, -, -, binds, fits⟩ := fitArguments_eq_some fits x member
    have holds := Snapshot.holds_bind declaring.ofArgs heldArgs _ binds
    exact ⟨holds, fitArgument_held (args arg isArg) holds fits⟩
  have returned : ∀ type ∈ returns, s.snapshot.Holds type := by
    rintro type rfl
    cases signature : m.returns with
    | none => simp [signature] at bindsReturns
    | some signature' =>
      rw [signature] at bindsReturns
      obtain ⟨found, binds, same⟩ := map_eq_ok.mp bindsReturns
      obtain rfl := Option.some.inj same
      exact Snapshot.holds_bind declaring.ofArgs heldArgs _ binds
  refine Term.all_iff.mpr ⟨?_, ?_⟩
  · simp only [Term.stated, List.forall_mem_cons, List.forall_mem_append, List.forall_mem_map,
      Option.mem_toList]
    exact ⟨declaring, ⟨heldArgs, fun x member => (fitted x member).1⟩, returned⟩
  · simp only [Term.parts, List.forall_mem_append, List.forall_mem_map, Option.mem_toList]
    refine ⟨fun r member => ?_, fun x member => (fitted x member).2⟩
    split at member
    · cases member
    · exact receiver r member

/-- In a frame of held types every step makes terms of held types. -/
theorem held_kept (frame : s.frame.Held s.snapshot) : s.Keeps (Term.Held s.snapshot) where
  name := named_held frame
  literal h := by
    rcases literalTerm_eq_ok h with rfl | ⟨value, type, named, rfl⟩ | ⟨value, type, named, rfl⟩ |
      ⟨n, h⟩
    · exact .leaf (by simp [Term.stated]) rfl
    · exact .leaf (by simpa [Term.stated] using Snapshot.holds_primitive named) rfl
    · exact .leaf (by simpa [Term.stated] using Snapshot.holds_primitive named) rfl
    · exact integerTerm_held h
  negatedLiteral h := by
    obtain ⟨p, -, h⟩ := negatedLiteral_eq_ok h
    exact integerTerm_held h
  this := this_held frame
  member := memberTerm_held
  ownCall _ named resolves args h := by
    obtain ⟨finds, own⟩ := ownMethods_eq_ok named
    refine callOf_held (findMember_held frame.containing finds) (fun r member => ?_)
      (holds_resolveTypes _ resolves) (fun arg member => (args arg member).1) h
    rw [(own r member).1]
    exact this_held frame
  memberCall _ before named resolves args h := by
    obtain ⟨type, named, finds⟩ := memberMethods_eq_ok named
    obtain ⟨holds, heldValue⟩ := receiverType_held before named
    exact callOf_held (findMember_held holds finds) heldValue (holds_resolveTypes _ resolves)
      (fun arg member => (args arg member).1) h
  element held typed named converted := by
    have holds := Snapshot.holds_primitive named
    have heldElement := (held.type_holds typed).ofArray
    refine Term.all_iff.mpr
      ⟨by simpa [Term.stated] using heldElement, List.forall_mem_cons.mpr ⟨held, ?_⟩⟩
    intro index member
    obtain ⟨given, heldGiven, converts⟩ := converted index member
    exact (convert_eq_ok converts).held heldGiven holds
  cast resolves held h := (convert_eq_ok h).held held (holds_resolveType _ resolves)
  negate held h := by
    obtain ⟨operand, promotes, -, rfl⟩ := negate_eq_ok h
    exact Term.all_iff.mpr
      ⟨by simp [Term.stated], by simpa [Term.parts] using promote_held held promotes⟩
  arithmetic heldLeft heldRight promotesLeft promotesRight h :=
    arithmetic_held (promote_held heldLeft promotesLeft) (promote_held heldRight promotesRight) h
  coalesce := coalesceTerm_held
  assign _ heldTarget _ heldValue h := assign_held heldTarget heldValue h

/-- Every type of a bound term is held if the types of the frame are. -/
theorem bind_held (frame : s.frame.Held s.snapshot) {expr : Expr} (h : s.bind expr = .ok t) :
    t.Held s.snapshot :=
  bind_keeps (held_kept frame) h

end Scope

end DebugExpr.Bound
