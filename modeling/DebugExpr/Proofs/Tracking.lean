import DebugExpr.Proofs.BoundTypes
import DebugExpr.Proofs.ReadingErrors

/-! Searches and conversions side by side, in one snapshot and in another. The second run does as the
first one, up to errors after which nothing is said about it, wherever both snapshots answer alike
for signatures and for the core library. What the types of a run are searched for is known in the
first snapshot, or else the snapshots agree on signatures anywhere. -/
namespace DebugExpr
open Metadata DebugExpr.Bound DebugExpr.Source

/-- No assembly is missing. -/
def Error.IsPlain (e : Error) : Prop :=
  e.missingAssemblies = []

/-- A second run does as the first one did, up to an error after which nothing is asked of it. -/
inductive Tracks {α : Type} (Same Free : Error → Prop) : Except Error α → Except Error α → Prop
  | ok (a : α) : Tracks Same Free (.ok a) (.ok a)
  | same {e : Error} (same : Same e) : Tracks Same Free (.error e) (.error e)
  | free {e : Error} {y : Except Error α} (free : Free e) : Tracks Same Free (.error e) y

namespace Tracks
variable {α β : Type} {Same Free : Error → Prop} {x y : Except Error α}

theorem bind {f g : α → Except Error β} (first : Tracks Same Free x y)
    (next : ∀ a, x = .ok a → Tracks Same Free (f a) (g a)) :
    Tracks Same Free (x >>= f) (y >>= g) := by
  cases first with
  | ok a => exact next a rfl
  | same same => exact .same same
  | free free => exact .free free

theorem mapM_option {f g : β → Except Error α} (each : ∀ b, Tracks Same Free (f b) (g b))
    (b? : Option β) : Tracks Same Free (b?.mapM f) (b?.mapM g) := by
  cases b? with
  | none => exact .ok none
  | some b => exact (each b).bind fun a _ => .ok (some a)

theorem of_raises (raises : Raises Same x) : Tracks Same Free x x := by
  cases x with
  | error e => exact .same (raises e rfl)
  | ok a => exact .ok a

theorem mono {Same' Free' : Error → Prop} (tracks : Tracks Same Free x y)
    (same : ∀ e, Same e → Same' e) (free : ∀ e, Free e → Free' e) : Tracks Same' Free' x y := by
  cases tracks with
  | ok a => exact .ok a
  | same isSame => exact .same (same _ isSame)
  | free isFree => exact .free (free _ isFree)

theorem eq_ok {a : α} (tracks : Tracks Same Free x y) (succeeds : x = .ok a) : y = .ok a := by
  subst succeeds
  cases tracks
  rfl

theorem eq (tracks : Tracks Same (fun _ => False) x y) : y = x := by
  cases tracks with
  | ok | same => rfl
  | free free => exact free.elim

theorem raises (tracks : Tracks Same (fun _ => False) x y) : Raises Same x := by
  intro e failed
  subst failed
  cases tracks with
  | same same => exact same
  | free free => exact free.elim

end Tracks

/-- A second snapshot answers all questions about the core library and about signatures of known
modules like the first one, up to errors after which nothing is asked of it. -/
structure Agree (Same Free : Error → Prop) (Anywhere : Prop) (s s' : Snapshot) : Prop where
  core : s'.coreType = s.coreType
  locate : ∀ {scope : ModuleId}, Anywhere ∨ (s.get? scope).isSome → ∀ assembly name,
    Tracks Same Free (s.locate scope assembly name) (s'.locate scope assembly name)
  plain : ∀ {e : Error}, e.IsPlain → Same e
  bound : ∀ {name : String}, ¬Free (.undefinedName name)

namespace Metadata.Snapshot
variable {Same Free : Error → Prop} {Anywhere : Prop} {s s' : Snapshot}

/-- The core library is looked into for one name, and no assembly is asked for. -/
theorem coreType_raises (name : String) (args : List ClosedType) :
    Raises Error.IsPlain (s.coreType name args) := by
  unfold coreType
  repeat' split
  all_goals first
    | exact raises_ok
    | exact raises_error rfl

theorem primitive_tracks (agree : Agree Same Free Anywhere s s') (p : Primitive) :
    Tracks Same Free (s.primitive p) (s'.primitive p) := by
  rw [primitive, primitive, agree.core]
  exact .of_raises ((coreType_raises _ _).mono fun _ => agree.plain)

section Signatures
variable {scope : ModuleId} {typeArgs methodArgs : List ClosedType}

mutual

theorem bind_tracks (agree : Agree Same Free Anywhere s s')
    (known : Anywhere ∨ (s.get? scope).isSome) : (signature : Signature) →
    Tracks Same Free (s.bind scope typeArgs methodArgs signature)
      (s'.bind scope typeArgs methodArgs signature)
  | .named assembly name args => by
    rw [Snapshot.bind, Snapshot.bind]
    refine (agree.locate known assembly name).bind fun found _ => ?_
    dsimp only
    split
    · exact .same (agree.plain rfl)
    · exact (bindAll_tracks agree known args).bind fun types _ => .ok _
  | .typeParameter index => by
    rw [Snapshot.bind, Snapshot.bind]
    split
    · exact .ok _
    · exact .same (agree.plain rfl)
  | .methodParameter index => by
    rw [Snapshot.bind, Snapshot.bind]
    split
    · exact .ok _
    · exact .same (agree.plain rfl)
  | .array element rank =>
    (bind_tracks agree known element).bind fun type _ => .ok _

theorem bindAll_tracks (agree : Agree Same Free Anywhere s s')
    (known : Anywhere ∨ (s.get? scope).isSome) : (signatures : List Signature) →
    Tracks Same Free (s.bindAll scope typeArgs methodArgs signatures)
      (s'.bindAll scope typeArgs methodArgs signatures)
  | [] => .ok _
  | signature :: rest => (bind_tracks agree known signature).bind fun _ _ =>
    (bindAll_tracks agree known rest).bind fun _ _ => .ok _

end

end Signatures

/-- The module of a known type is known. -/
theorem known_home {home : ModuleId} {d : TypeDefinition} {args : List ClosedType}
    (known : Anywhere ∨ s.Holds (.named home d args)) : Anywhere ∨ (s.get? home).isSome :=
  known.imp_right fun held => by
    obtain ⟨m, found, -⟩ := held.loads
    rw [found]
    rfl

section Chains
variable (agree : Agree Same Free Anywhere s s')
include agree

theorem baseType_tracks {type : ClosedType} (known : Anywhere ∨ s.Holds type) :
    Tracks Same Free (s.baseType type) (s'.baseType type) := by
  cases type with
  | named home d args =>
    simp only [baseType]
    cases d.base with
    | none => exact .ok _
    | some base => exact (bind_tracks agree (known_home known) base).bind fun _ _ => .ok _
  | array element rank =>
    simp only [baseType, primitive, agree.core]
    cases s.coreType "System.Array" [] with
    | ok type => exact .ok _
    | error =>
      exact .of_raises (((coreType_raises _ _).mono fun _ => agree.plain).bind fun _ => raises_ok)

theorem inheritsWithin_tracks {base type : ClosedType} {limit steps : Nat}
    (known : Anywhere ∨ s.Holds type) :
    Tracks Same Free (s.inheritsWithin limit base steps type)
      (s'.inheritsWithin limit base steps type) := by
  induction steps generalizing type with
  | zero =>
    unfold inheritsWithin
    split
    · exact .ok _
    · exact .same (agree.plain rfl)
  | succ steps ih =>
    unfold inheritsWithin
    split
    · exact .ok _
    refine (baseType_tracks agree known).bind fun base? climbs => ?_
    cases base? with
    | none => exact .ok _
    | some next => exact ih (known.imp_right fun held => holds_baseType held climbs)

end Chains

end Metadata.Snapshot

/-- The types of a call site are held. -/
structure Bound.CallSite.Held (s : Snapshot) (site : CallSite) : Prop where
  declaring : s.Holds site.declaring
  typeArgs : ∀ type ∈ site.typeArgs, s.Holds type
  args : ∀ arg ∈ site.args, arg.2.Held s

namespace Bound.Scope
variable {Same Free : Error → Prop} {Anywhere : Prop} {s : Scope} {snapshot : Snapshot}
  {context : Pseudo.Context} {t : Term} {type wanted : ClosedType} {explicit : Bool}

/-- The scope with another snapshot and another inspection context. -/
def moved (s : Scope) (snapshot : Snapshot) (context : Pseudo.Context) : Scope :=
  { s with snapshot, context }

@[simp]
theorem moved_snapshot : (s.moved snapshot context).snapshot = snapshot :=
  rfl

@[simp]
theorem moved_context : (s.moved snapshot context).context = context :=
  rfl

@[simp]
theorem moved_config : (s.moved snapshot context).config = s.config :=
  rfl

@[simp]
theorem moved_frame : (s.moved snapshot context).frame = s.frame :=
  rfl

@[simp]
theorem moved_allowsSideEffects :
    (s.moved snapshot context).allowsSideEffects = s.allowsSideEffects :=
  rfl

/-- The type of a known term is known. -/
theorem known_type (known : Anywhere ∨ t.Held s.snapshot) :
    ∀ type ∈ t.type?, Anywhere ∨ s.snapshot.Holds type :=
  fun _ typed => known.imp_right fun held => held.type_holds typed

section Members
variable (agree : Agree Same Free Anywhere s.snapshot snapshot)
include agree

theorem memberRef_tracks {home : ModuleId} {d : TypeDefinition} {args : List ClosedType}
    (known : Anywhere ∨ s.snapshot.Holds (.named home d args)) (m : Metadata.Member) :
    Tracks Same Free (s.memberRef type home args m)
      ((s.moved snapshot context).memberRef type home args m) :=
  (Snapshot.bind_tracks agree (Snapshot.known_home known) _).bind fun _ _ => .ok _

theorem declaredMember_tracks {name : String} {invoked : Bool}
    (known : Anywhere ∨ s.snapshot.Holds type) :
    Tracks Same Free (s.declaredMember name invoked type)
      ((s.moved snapshot context).declaredMember name invoked type) := by
  cases type with
  | array => exact .ok _
  | named home d args =>
    simp only [declaredMember]
    generalize (if (d.methodsNamed name).isEmpty then none
      else some (Member.methods (.named home d args) (d.methodsNamed name))) = group
    split
    · exact .ok _
    split
    · exact (memberRef_tracks agree known _).bind fun _ _ => .ok _
    split
    · exact (memberRef_tracks agree known _).bind fun _ _ => .ok _
    · exact .ok _

theorem findMember_tracks {name : String} {invoked : Bool}
    (known : Anywhere ∨ s.snapshot.Holds type) :
    Tracks Same Free (s.findMember type name invoked)
      ((s.moved snapshot context).findMember type name invoked) := by
  rw [findMember, findMember, moved_config]
  generalize s.config.maxInheritanceDepth = steps
  induction steps generalizing type with
  | zero =>
    unfold findMemberWithin
    refine (declaredMember_tracks agree known).bind fun found _ => ?_
    cases found with
    | some => exact .ok _
    | none => exact .same (agree.plain rfl)
  | succ steps ih =>
    unfold findMemberWithin
    refine (declaredMember_tracks agree known).bind fun found _ => ?_
    cases found with
    | some => exact .ok _
    | none =>
      refine (Snapshot.baseType_tracks agree known).bind fun base? climbs => ?_
      cases base? with
      | none => exact .ok _
      | some base => exact ih (known.imp_right fun held => Snapshot.holds_baseType held climbs)

end Members

section Conversions
variable (agree : Agree Same Free Anywhere s.snapshot snapshot)
include agree

theorem integerTerm_tracks (value : Int) (p : Primitive) :
    Tracks Same Free (s.integerTerm value p)
      ((s.moved snapshot context).integerTerm value p) := by
  refine (Snapshot.primitive_tracks agree p).bind fun type _ => ?_
  split <;> exact .ok _

theorem refit_tracks :
    Tracks Same Free (s.refit t wanted) ((s.moved snapshot context).refit t wanted) := by
  unfold refit
  split
  · split
    · exact (integerTerm_tracks agree _ _).bind fun _ _ => .ok _
    · exact .ok _
  · exact .ok _

theorem inherits_tracks {derived base : ClosedType} (known : Anywhere ∨ s.snapshot.Holds derived) :
    Tracks Same Free (s.inherits derived base)
      ((s.moved snapshot context).inherits derived base) :=
  Snapshot.inheritsWithin_tracks agree known

theorem convertibleValue_tracks {source : ClosedType} (known : Anywhere ∨ s.snapshot.Holds source) :
    Tracks Same Free (s.convertibleValue source wanted explicit)
      ((s.moved snapshot context).convertibleValue source wanted explicit) := by
  unfold convertibleValue
  split
  · exact .ok _
  split
  · exact .ok _
  · refine (inherits_tracks agree known).bind fun inherits _ => ?_
    split <;> exact .ok _

theorem convertibleReference_tracks {source : ClosedType}
    (known : Anywhere ∨ s.snapshot.Holds source) (knownWanted : Anywhere ∨ s.snapshot.Holds wanted) :
    Tracks Same Free (s.convertibleReference source wanted explicit)
      ((s.moved snapshot context).convertibleReference source wanted explicit) := by
  unfold convertibleReference
  split
  · exact .ok _
  refine (inherits_tracks agree known).bind fun inherits _ => ?_
  split
  · exact .ok _
  split
  · exact .ok _
  split
  · exact .ok _
  · exact (inherits_tracks agree knownWanted).bind fun _ _ => .ok _

theorem convertibleBoxed_tracks {source : ClosedType}
    (knownWanted : Anywhere ∨ s.snapshot.Holds wanted) :
    Tracks Same Free (s.convertibleBoxed source wanted explicit)
      ((s.moved snapshot context).convertibleBoxed source wanted explicit) := by
  unfold convertibleBoxed
  split
  · exact .ok _
  split
  · exact .ok _
  · exact (inherits_tracks agree knownWanted).bind fun _ _ => .ok _

theorem convertible_tracks {source : Option ClosedType}
    (known : ∀ type ∈ source, Anywhere ∨ s.snapshot.Holds type)
    (knownWanted : Anywhere ∨ s.snapshot.Holds wanted) :
    Tracks Same Free (s.convertible source wanted explicit)
      ((s.moved snapshot context).convertible source wanted explicit) := by
  cases source with
  | none => exact .ok _
  | some source =>
    have known := known source rfl
    simp only [convertible]
    split
    · exact .ok _
    split
    · exact .ok _
    split
    · exact convertibleValue_tracks agree known
    split
    · exact convertibleReference_tracks agree known knownWanted
    · exact convertibleBoxed_tracks agree knownWanted

theorem convert?_tracks (known : Anywhere ∨ t.Held s.snapshot)
    (knownWanted : Anywhere ∨ s.snapshot.Holds wanted) :
    Tracks Same Free (s.convert? t wanted explicit)
      ((s.moved snapshot context).convert? t wanted explicit) := by
  refine (refit_tracks agree).bind fun constant? _ => ?_
  cases constant? with
  | some => exact .ok _
  | none =>
    refine (convertible_tracks agree (known_type known) knownWanted).bind fun way _ => ?_
    cases way <;> exact .ok _

theorem convert_tracks (known : Anywhere ∨ t.Held s.snapshot)
    (knownWanted : Anywhere ∨ s.snapshot.Holds wanted) :
    Tracks Same Free (s.convert t wanted explicit)
      ((s.moved snapshot context).convert t wanted explicit) := by
  refine (convert?_tracks agree known knownWanted).bind fun converted? _ => ?_
  cases converted? with
  | some => exact .ok _
  | none => exact .same (agree.plain rfl)

theorem promote_tracks (known : Anywhere ∨ t.Held s.snapshot) :
    Tracks Same Free (s.promote t) ((s.moved snapshot context).promote t) := by
  unfold promote
  split
  · refine (Snapshot.primitive_tracks agree _).bind fun int named => ?_
    exact convert_tracks agree known (.inr (Snapshot.holds_primitive named))
  · exact .ok _

end Conversions

section Operations
variable {left right target value : Term} (agree : Agree Same Free Anywhere s.snapshot snapshot)
include agree

theorem literalTerm_tracks (literal : Literal) :
    Tracks Same Free (s.literalTerm literal)
      ((s.moved snapshot context).literalTerm literal) := by
  cases literal with
  | null => exact .ok _
  | bool | string => exact (Snapshot.primitive_tracks agree _).bind fun _ _ => .ok _
  | integer => exact integerTerm_tracks agree _ _

theorem thisTerm_tracks (position : Nat) :
    Tracks Same Free (s.thisTerm position) ((s.moved snapshot context).thisTerm position) := by
  rw [thisTerm, thisTerm, moved_frame]
  split
  · exact .same (agree.plain rfl)
  · exact .ok _

theorem negatedLiteral_tracks (n : Nat) :
    Tracks Same Free (s.negatedLiteral n) ((s.moved snapshot context).negatedLiteral n) := by
  unfold negatedLiteral
  split
  · exact integerTerm_tracks agree _ _
  split
  · exact integerTerm_tracks agree _ _
  · exact .same (agree.plain rfl)

theorem negate_tracks (known : Anywhere ∨ t.Held s.snapshot) :
    Tracks Same Free (s.negate t) ((s.moved snapshot context).negate t) := by
  refine (promote_tracks agree known).bind fun operand _ => ?_
  split
  · exact .ok _
  · exact .same (agree.plain rfl)

theorem arithmetic_tracks {op : BinaryOp} (knownLeft : Anywhere ∨ left.Held s.snapshot)
    (knownRight : Anywhere ∨ right.Held s.snapshot) :
    Tracks Same Free (s.arithmetic op left right)
      ((s.moved snapshot context).arithmetic op left right) := by
  unfold arithmetic
  dsimp only
  split
  · next leftType rightType typedLeft typedRight =>
    split
    · exact .same (agree.plain rfl)
    split
    · exact .ok _
    refine (convert?_tracks agree knownLeft (known_type knownRight _ typedRight)).bind
      fun left? _ => ?_
    cases left? with
    | some => exact .ok _
    | none =>
      refine (convert?_tracks agree knownRight (known_type knownLeft _ typedLeft)).bind
        fun right? _ => ?_
      cases right? with
      | some => exact .ok _
      | none => exact .same (agree.plain rfl)
  · exact .same (agree.plain rfl)

theorem coalesceTerm_tracks (knownLeft : Anywhere ∨ left.Held s.snapshot)
    (knownRight : Anywhere ∨ right.Held s.snapshot) :
    Tracks Same Free (s.coalesceTerm left right)
      ((s.moved snapshot context).coalesceTerm left right) := by
  unfold coalesceTerm
  dsimp only
  split
  · exact .same (agree.plain rfl)
  · next leftType typed =>
    have knownType := known_type knownLeft _ (Option.filter_eq_some_iff.mp typed).1
    refine (convert?_tracks agree knownRight knownType).bind fun right? _ => ?_
    cases right? with
    | some => exact .ok _
    | none =>
      dsimp only
      split
      · exact .same (agree.plain rfl)
      · next rightType typedRight =>
        have knownWanted := known_type knownRight _ typedRight
        refine (convertible_tracks agree (fun type same => ?_) knownWanted).bind fun way _ => ?_
        · cases same
          exact knownType
        cases way with
        | no => exact .same (agree.plain rfl)
        | same | via => exact (convert_tracks agree knownLeft knownWanted).bind fun _ _ => .ok _

theorem assign_tracks {op : Option BinaryOp} (knownTarget : Anywhere ∨ target.Held s.snapshot)
    (knownValue : Anywhere ∨ value.Held s.snapshot) :
    Tracks Same Free (s.assign target op value)
      ((s.moved snapshot context).assign target op value) := by
  unfold assign
  split
  · exact .same (agree.plain rfl)
  next type typed =>
  have converts : Tracks Same Free (s.convert value type false)
      ((s.moved snapshot context).convert value type false) :=
    convert_tracks agree knownValue (known_type knownTarget _ typed)
  split
  · exact converts.bind fun _ _ => .ok _
  split
  · exact .same (agree.plain rfl)
  · exact converts.bind fun _ _ => .ok _

omit agree in
theorem elementType_raises (array : Term) (indices : Nat) :
    Raises Error.IsPlain (elementType array indices) := by
  unfold elementType
  repeat' split
  all_goals first
    | exact raises_ok
    | exact raises_error rfl

end Operations

theorem homeOf_known (home : Anywhere ∨ (s.snapshot.get? s.frame.home).isSome)
    (known : Anywhere ∨ s.snapshot.Holds type) :
    Anywhere ∨ (s.snapshot.get? (s.homeOf type)).isSome := by
  cases type with
  | named => exact Snapshot.known_home known
  | array => exact home

section Calls
variable (agree : Agree Same Free Anywhere s.snapshot snapshot)
  (home : Anywhere ∨ (s.snapshot.get? s.frame.home).isSome)
include agree

theorem fitArgument_tracks {byRef : Bool} {arg : Bool × Term}
    (known : Anywhere ∨ arg.2.Held s.snapshot) (knownType : Anywhere ∨ s.snapshot.Holds type) :
    Tracks Same Free (s.fitArgument byRef type arg)
      ((s.moved snapshot context).fitArgument byRef type arg) := by
  obtain ⟨argByRef, term⟩ := arg
  unfold fitArgument
  dsimp only
  split
  · exact .ok _
  split
  · exact .ok _
  · exact convert?_tracks agree known knownType

include home

theorem fitArguments_tracks {declaring : ClosedType} {methodArgs : List ClosedType}
    (known : Anywhere ∨ s.snapshot.Holds declaring ∧ ∀ type ∈ methodArgs, s.snapshot.Holds type)
    {params : List Parameter} {args : List (Bool × Term)}
    (knownArgs : ∀ arg ∈ args, Anywhere ∨ arg.2.Held s.snapshot) :
    Tracks Same Free (s.fitArguments declaring methodArgs params args)
      ((s.moved snapshot context).fitArguments declaring methodArgs params args) := by
  induction params generalizing args with
  | nil => exact .ok _
  | cons p params ih =>
    cases args with
    | nil => exact .ok _
    | cons arg args =>
      obtain ⟨knownArg, knownArgs⟩ := List.forall_mem_cons.mp knownArgs
      unfold fitArguments
      refine (Snapshot.bind_tracks agree
        (homeOf_known home (known.imp_right And.left)) _).bind fun type binds => ?_
      have knownType := known.imp_right fun held =>
        Snapshot.holds_bind held.1.ofArgs held.2 _ binds
      refine (fitArgument_tracks agree knownArg knownType).bind fun fitted? _ => ?_
      cases fitted? with
      | none => exact .ok _
      | some term =>
        refine (ih knownArgs).bind fun rest? _ => ?_
        cases rest? <;> exact .ok _

theorem callOf?_tracks {site : CallSite} (known : Anywhere ∨ site.Held s.snapshot) (m : Method) :
    Tracks Same Free (s.callOf? site m) ((s.moved snapshot context).callOf? site m) := by
  unfold callOf?
  split
  · exact .ok _
  split
  · exact .ok _
  next methodArgs infers =>
  have knownArgs := known.imp_right fun held =>
    And.intro held.declaring (methodArgs?_held held.typeArgs held.args infers)
  refine (fitArguments_tracks agree home knownArgs
    fun arg member => known.imp_right fun held => held.args arg member).bind fun fitted? _ => ?_
  cases fitted? with
  | none => exact .ok _
  | some fitted =>
    have knownHome := homeOf_known home (known.imp_right CallSite.Held.declaring)
    exact (Tracks.mapM_option (Snapshot.bind_tracks agree knownHome) m.returns).bind
      fun _ _ => .ok _

theorem callOf_tracks {name : String} {site : CallSite} (known : Anywhere ∨ site.Held s.snapshot)
    (methods : List Method) :
    Tracks Same Free (s.callOf name site methods)
      ((s.moved snapshot context).callOf name site methods) := by
  induction methods with
  | nil => exact .same (agree.plain rfl)
  | cons m rest ih =>
    unfold callOf
    refine (callOf?_tracks agree home known m).bind fun call? _ => ?_
    cases call? with
    | some => exact .ok _
    | none => exact ih

end Calls

end Bound.Scope
end DebugExpr
