import DebugExpr.Proofs.HeldTypes
import DebugExpr.Proofs.SampleScope
import DebugExpr.Proofs.ValueKinds

/-! Types of simple terms. A term is simple if it computes with integers and moves references between
variables alone. In a regular scope, where tokens tell definitions apart, the types of the frame are
loaded and the core library marks its built-in types, all types of a simple bound term are loaded, so
that types which count as the same have values of one kind. -/
namespace DebugExpr.Metadata
open Text

/-- Definitions of different names all count. -/
theorem keepFirst_eq_self {ds : List TypeDefinition} (distinct : (ds.map (·.fullName)).Nodup) :
    keepFirst ds = ds := by
  induction ds with
  | nil => rfl
  | cons d rest ih =>
    rw [List.map_cons, List.nodup_cons] at distinct
    rw [keepFirst, ih distinct.2, List.cons.injEq]
    refine ⟨rfl, List.filter_eq_self.mpr fun other member => ?_⟩
    have different : other.fullName ≠ d.fullName := fun same =>
      distinct.1 (List.mem_map.mpr ⟨other, member, same⟩)
    simpa using different

theorem Token.row_typeDefinition {row : Nat} (small : row < 2 ^ 24) :
    (Token.typeDefinition row.toUInt32).row.toNat = row := by
  have wide : row.toUInt32.toNat = row := Nat.mod_eq_of_lt (by omega)
  have mask : rowMask.toNat = 2 ^ 24 - 1 := by decide
  have table : (typeDefinitionTable.toUInt32 <<< 24).toNat % 2 ^ 24 = 0 := by decide
  simp only [Token.row, Token.typeDefinition, UInt32.toNat_and, UInt32.toNat_or, wide, mask,
    Nat.and_two_pow_sub_one_eq_mod, Nat.or_mod_two_pow, table, Nat.zero_or, Nat.mod_mod]
  exact Nat.mod_eq_of_lt small

/-- The definitions of declared types, each with the token of its row. -/
def TypeDeclaration.defineAll (declarations : List TypeDeclaration) : List TypeDefinition :=
  declarations.mapIdx fun i d => d.define (.typeDefinition (i + 1).toUInt32)

theorem TypeDeclaration.defineAll_tokens_nodup {declarations : List TypeDeclaration}
    (few : declarations.length < 2 ^ 24) : ((defineAll declarations).map (·.token)).Nodup := by
  unfold defineAll
  rw [List.nodup_iff_pairwise_ne, List.pairwise_iff_getElem]
  intro i j inside inside' before same
  simp only [List.length_map, List.length_mapIdx] at inside inside'
  simp only [List.getElem_map, List.getElem_mapIdx, TypeDeclaration.define] at same
  have rows := congrArg (·.row.toNat) same
  rw [Token.row_typeDefinition (by omega), Token.row_typeDefinition (by omega)] at rows
  omega

/-- A module that was built from declarations tells its definitions apart by their tokens. -/
theorem Module.build_tokens_nodup (identity : Assembly.Identity)
    {declarations : List TypeDeclaration} (few : declarations.length < 2 ^ 24) :
    ((Module.build identity declarations).types.map (·.token)).Nodup :=
  ((keepFirst_sublist _).map _).nodup (TypeDeclaration.defineAll_tokens_nodup few)

end DebugExpr.Metadata

namespace DebugExpr.Bound
open Metadata Source

/-- The integral type that a type is. -/
def integer? (type : ClosedType) : Option Primitive :=
  match kind? type with
  | some (.integer p) => some p
  | _ => none

/-- A node that computes with integers or moves references. Compound assignments are of wide types
alone. -/
def isSimple : Term → Bool
  | .null | .negate _ => true
  | .constant (.int32 _) type | .constant (.int64 _) type => (integer? type).isSome
  | .localVar _ type | .parameter _ false type => (kind? type).isSome
  | .conversion (.numeric _) _ type => (integer? type).isSome
  | .conversion .nullLiteral _ type => kind? type = some .reference
  | .conversion .implicitReference _ type => kind? type = some .reference
  | .binary _ _ _ type => (integer? type).isSome
  | .coalesce _ _ type => kind? type = some .reference
  | .assign _ _ type => (kind? type).isSome
  | .compound _ _ _ type => (integer? type).any isWide
  | _ => false

/-- All nodes are simple. -/
abbrev Term.Simple : Term → Prop :=
  Term.All fun u => isSimple u = true

namespace Scope

/-- The surroundings are what metadata and the debugger give: tokens are unique in a module, as they
are in a module that was built from declarations, the types of locals and parameters are loaded, and
the core library marks its built-in types. -/
structure Regular (s : Scope) : Prop where
  tokens : ∀ m ∈ s.snapshot.modules, (m.types.map (·.token)).Nodup
  locals : ∀ slot ∈ s.frame.locals, s.snapshot.Loads slot.type
  parameters : ∀ slot ∈ s.frame.parameters, s.snapshot.Loads slot.type
  marked : ∀ p type, s.snapshot.primitive p = .ok type →
    type.primitive? = some p ∧ type.isValueType = p.isValueType

/-- The type of the node is loaded. -/
def TypeLoaded (s : Scope) (t : Term) : Prop :=
  ∀ type, t.type? = some type → s.snapshot.Loads type

/-- All types of the term are loaded if it is simple. -/
def LoadedIfSimple (s : Scope) (t : Term) : Prop :=
  t.Simple → t.All s.TypeLoaded

variable {s : Scope} {t t' left right target value : Term} {type wanted : ClosedType}

theorem LoadedIfSimple.of_not_simple (opaque' : isSimple t = false) : s.LoadedIfSimple t := by
  intro simple
  have node := simple.node
  rw [opaque'] at node
  cases node

theorem LoadedIfSimple.leaf (loaded : s.TypeLoaded t) (none : t.parts = []) : s.LoadedIfSimple t :=
  fun _ => .leaf loaded none

theorem loads_primitive {p : Primitive} (named : s.snapshot.primitive p = .ok type) :
    s.snapshot.Loads type :=
  (Snapshot.holds_primitive named).loads

theorem integerTerm_loaded {n : Int} {p : Primitive} (h : s.integerTerm n p = .ok t) :
    s.LoadedIfSimple t := by
  obtain ⟨type, named, h⟩ := bind_eq_ok.mp h
  split at h
  all_goals
    obtain rfl := pure_eq_ok.mp h
    exact .leaf (by simpa [TypeLoaded, Term.type?] using loads_primitive named) rfl

/-- A conversion to a loaded type, or to one that is loaded if the result is simple. -/
theorem Converted.loaded {explicit : Bool} (converted : s.Converted t wanted explicit t')
    (loaded : s.LoadedIfSimple t) (loads : s.snapshot.Loads wanted) : s.LoadedIfSimple t' := by
  cases converted with
  | refit refits =>
    obtain ⟨n, p, -, -, -, h⟩ := refit_eq_some refits
    exact integerTerm_loaded h
  | same => exact loaded
  | via =>
    intro simple
    refine Term.all_iff.mpr ⟨by simpa [TypeLoaded, Term.type?] using loads, ?_⟩
    simpa [Term.parts] using loaded (simple.parts t (by simp [Term.parts]))

theorem promote_loaded (loaded : s.LoadedIfSimple t) (h : s.promote t = .ok t') :
    s.LoadedIfSimple t' := by
  rcases promote_eq_ok h with ⟨int, named, h⟩ | ⟨-, rfl⟩
  · exact (convert_eq_ok h).loaded loaded (loads_primitive named)
  · exact loaded

theorem negate_loaded (loaded : s.LoadedIfSimple t) (h : s.negate t = .ok t') :
    s.LoadedIfSimple t' := by
  obtain ⟨operand, promotes, -, rfl⟩ := negate_eq_ok h
  intro simple
  have below := promote_loaded loaded promotes (simple.parts operand (by simp [Term.parts]))
  exact Term.all_iff.mpr ⟨fun type typed => below.node type typed, by simpa [Term.parts] using below⟩

/-- A node of two parts that has the type of one of them. -/
theorem LoadedIfSimple.of_two (two : t.parts = [left, right])
    (typed : ∀ type, t.type? = some type → left.type? = some type ∨ right.type? = some type)
    (loadedLeft : s.LoadedIfSimple left) (loadedRight : s.LoadedIfSimple right) :
    s.LoadedIfSimple t := by
  intro simple
  have belowLeft := loadedLeft (simple.parts left (by simp [two]))
  have belowRight := loadedRight (simple.parts right (by simp [two]))
  refine Term.all_iff.mpr ⟨?_, by simpa [two] using ⟨belowLeft, belowRight⟩⟩
  intro type found
  exact (typed type found).elim (belowLeft.node type) (belowRight.node type)

/-- The operand that gives a node of two parts its type. -/
theorem LoadedIfSimple.type_loads {part : Term} (loaded : s.LoadedIfSimple part) (simple : t.Simple)
    (isPart : part ∈ t.parts) (typed : part.type? = some type) : s.snapshot.Loads type :=
  (loaded (simple.parts part isPart)).node type typed

/-- Arithmetic has the type of one operand, to which the other one is converted. -/
theorem arithmetic_loaded {op : BinaryOp} (loadedLeft : s.LoadedIfSimple left)
    (loadedRight : s.LoadedIfSimple right) (h : s.arithmetic op left right = .ok t) :
    s.LoadedIfSimple t := by
  obtain ⟨leftType, rightType, typedLeft, typedRight, -, -, made⟩ := arithmetic_eq_ok h
  intro simple
  rcases made with ⟨-, rfl⟩ | ⟨left', converts, rfl⟩ | ⟨right', converts, rfl⟩
  · exact LoadedIfSimple.of_two rfl (by rintro _ ⟨⟩; exact .inl typedLeft) loadedLeft loadedRight
      simple
  · have loads := loadedRight.type_loads simple (by simp [Term.parts]) typedRight
    exact LoadedIfSimple.of_two rfl (by rintro _ ⟨⟩; exact .inr typedRight)
      ((convert?_eq_some converts).loaded loadedLeft loads) loadedRight simple
  · have loads := loadedLeft.type_loads simple (by simp [Term.parts]) typedLeft
    exact LoadedIfSimple.of_two rfl (by rintro _ ⟨⟩; exact .inl typedLeft) loadedLeft
      ((convert?_eq_some converts).loaded loadedRight loads) simple

theorem coalesceTerm_loaded (loadedLeft : s.LoadedIfSimple left)
    (loadedRight : s.LoadedIfSimple right) (h : s.coalesceTerm left right = .ok t) :
    s.LoadedIfSimple t := by
  obtain ⟨leftType, typedLeft, -, made⟩ := coalesceTerm_eq_ok h
  intro simple
  rcases made with ⟨right', converts, rfl⟩ | ⟨rightType, left', typedRight, converts, rfl⟩
  · have loads := loadedLeft.type_loads simple (by simp [Term.parts]) typedLeft
    exact LoadedIfSimple.of_two rfl (by rintro _ ⟨⟩; exact .inl typedLeft) loadedLeft
      ((convert?_eq_some converts).loaded loadedRight loads) simple
  · have loads := loadedRight.type_loads simple (by simp [Term.parts]) typedRight
    exact LoadedIfSimple.of_two rfl (by rintro _ ⟨⟩; exact .inr typedRight)
      ((convert_eq_ok converts).loaded loadedLeft loads) loadedRight simple

theorem assign_loaded {op : Option BinaryOp} (loadedTarget : s.LoadedIfSimple target)
    (loadedValue : s.LoadedIfSimple value) (h : s.assign target op value = .ok t) :
    s.LoadedIfSimple t := by
  obtain ⟨type, value', typed, converts, made⟩ := assign_eq_ok h
  intro simple
  have two : t.parts = [target, value'] := by
    rcases made with ⟨-, rfl⟩ | ⟨_, -, -, rfl⟩
    · rfl
    · rfl
  have typed' : t.type? = some type := by
    rcases made with ⟨-, rfl⟩ | ⟨_, -, -, rfl⟩
    · rfl
    · rfl
  have loads := loadedTarget.type_loads simple (by simp [two]) typed
  refine LoadedIfSimple.of_two two (fun found isType => .inl ?_) loadedTarget
    ((convert_eq_ok converts).loaded loadedValue loads) simple
  rw [typed, ← typed', isType]

/-- Members are read by code that is not simple. -/
theorem memberTerm_loaded {receiver : Receiver} {name : String} {typeArgs : List TypeExpr}
    (h : s.memberTerm receiver name typeArgs = .ok t) : s.LoadedIfSimple t := by
  obtain ⟨value, type, m, kept, -, -, ⟨-, rfl⟩ | ⟨-, rfl⟩⟩ := memberTerm_eq_ok h
  · exact .of_not_simple rfl
  · exact .of_not_simple rfl

theorem callOf_loaded {name : String} {site : CallSite} {methods : List Method}
    (h : s.callOf name site methods = .ok t) : s.LoadedIfSimple t := by
  obtain ⟨m, -, h⟩ := callOf_eq_ok h
  obtain ⟨-, -, methodArgs, fitted, returns, -, -, -, rfl⟩ := callOf?_eq_some h
  exact .of_not_simple rfl

theorem named_loaded (regular : s.Regular) {name : String} (named : s.Named name t) :
    s.LoadedIfSimple t := by
  cases named with
  | localVar found =>
    have member := List.mem_of_getElem? (Frame.local?_slot found)
    exact .leaf (by simpa [TypeLoaded, Term.type?] using regular.locals _ member) rfl
  | parameter found =>
    obtain ⟨i, -, found⟩ := Frame.parameter?_slot found
    have member := List.mem_of_getElem? found
    exact .leaf (by simpa [TypeLoaded, Term.type?] using regular.parameters _ member) rfl
  | member _ own =>
    obtain ⟨m, receiver, -, ⟨-, rfl⟩ | ⟨-, rfl⟩⟩ := ownMember?_eq_some own
    · exact .of_not_simple rfl
    · exact .of_not_simple rfl
  | pseudo => exact .of_not_simple rfl

theorem literalTerm_loaded {literal : Literal} (h : s.literalTerm literal = .ok t) :
    s.LoadedIfSimple t := by
  rcases literalTerm_eq_ok h with rfl | ⟨value, type, -, rfl⟩ | ⟨value, type, -, rfl⟩ | ⟨n, h⟩
  · exact .leaf (by simp [TypeLoaded, Term.type?]) rfl
  · exact .of_not_simple rfl
  · exact .of_not_simple rfl
  · exact integerTerm_loaded h

theorem loaded_kept (regular : s.Regular) : s.Keeps s.LoadedIfSimple where
  name := named_loaded regular
  literal := literalTerm_loaded
  negatedLiteral h := by
    obtain ⟨p, -, h⟩ := negatedLiteral_eq_ok h
    exact integerTerm_loaded h
  this := .of_not_simple rfl
  member _ h := memberTerm_loaded h
  ownCall _ _ _ _ h := callOf_loaded h
  memberCall _ _ _ _ _ h := callOf_loaded h
  element _ _ _ _ := .of_not_simple rfl
  cast resolves loaded h := (convert_eq_ok h).loaded loaded (holds_resolveType _ resolves).loads
  negate := negate_loaded
  arithmetic loadedLeft loadedRight promotesLeft promotesRight h :=
    arithmetic_loaded (promote_loaded loadedLeft promotesLeft)
      (promote_loaded loadedRight promotesRight) h
  coalesce := coalesceTerm_loaded
  assign _ loadedTarget _ loadedValue h := assign_loaded loadedTarget loadedValue h

/-- In a regular scope the types of a simple bound term are loaded. -/
theorem bind_loaded (regular : s.Regular) {expr : Expr} (h : s.bind expr = .ok t) :
    s.LoadedIfSimple t :=
  bind_keeps (loaded_kept regular) h

end Scope

end DebugExpr.Bound

namespace DebugExpr.Sample
open Metadata DebugExpr.Bound

theorem loads {d : TypeDefinition} (listed : d ∈ Primitive.all.map definition ++ [program])
    (args : List ClosedType) : (Snapshot.empty.add core).Loads (.named ⟨0⟩ d args) := by
  refine ⟨_, rfl, ?_⟩
  have distinct : ((Primitive.all.map definition ++ [program]).map (·.fullName)).Nodup := by
    decide +kernel
  change d ∈ keepFirst (Primitive.all.map definition ++ [program])
  rwa [keepFirst_eq_self distinct]

theorem loads_type (p : Primitive) : (Snapshot.empty.add core).Loads (type p) :=
  loads (List.mem_append_left _ (List.mem_map_of_mem (Primitive.mem_all p))) []

theorem holds_type (p : Primitive) : (Snapshot.empty.add core).Holds (type p) := by
  have plain : ∀ p ∈ Primitive.all, (definition p).genericParams.length = 0 := by decide +kernel
  exact .plain (loads_type p) (plain p (Primitive.mem_all p))

/-- A frame with variables of built-in types has held types. -/
theorem frame_held {parameters : List FrameParameter} {locals : List FrameLocal}
    (builtInParameters : ∀ slot ∈ parameters, ∃ p, slot.type = type p)
    (builtInLocals : ∀ slot ∈ locals, ∃ p, slot.type = type p) :
    (scope parameters locals).frame.Held (scope parameters locals).snapshot where
  containing := .plain (loads (List.mem_append_right _ (List.mem_singleton_self _)) [])
    (by decide +kernel)
  locals slot member := by
    obtain ⟨p, typed⟩ := builtInLocals slot member
    rw [typed]
    exact holds_type p
  parameters slot member := by
    obtain ⟨p, typed⟩ := builtInParameters slot member
    rw [typed]
    exact holds_type p

theorem primitive_marked (p : Primitive) : ∃ type,
    (Snapshot.empty.add core).primitive p = .ok type ∧
      type.primitive? = some p ∧ type.isValueType = p.isValueType := by
  have known : ∀ p ∈ Primitive.all, ((Snapshot.empty.add core).primitive p).toOption.any
      (fun type => decide (type.primitive? = some p ∧ type.isValueType = p.isValueType)) = true := by
    decide +kernel
  exact exists_ok_of_any (known p (Primitive.mem_all p))

/-- A scope with variables of built-in types is regular. -/
theorem scope_regular {parameters : List FrameParameter} {locals : List FrameLocal}
    (builtInParameters : ∀ slot ∈ parameters, ∃ p, slot.type = type p)
    (builtInLocals : ∀ slot ∈ locals, ∃ p, slot.type = type p) :
    (scope parameters locals).Regular where
  tokens m member := by
    obtain rfl := List.mem_singleton.mp member
    decide +kernel
  locals slot member := by
    obtain ⟨p, typed⟩ := builtInLocals slot member
    rw [typed]
    exact loads_type p
  parameters slot member := by
    obtain ⟨p, typed⟩ := builtInParameters slot member
    rw [typed]
    exact loads_type p
  marked p type named := by
    obtain ⟨type', named', marks⟩ := primitive_marked p
    obtain rfl : type' = type := Except.ok.inj (named'.symm.trans named)
    exact marks

end DebugExpr.Sample
