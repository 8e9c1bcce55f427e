import DebugExpr.Proofs.Subexpressions
import DebugExpr.Proofs.Tracking

/-! Binding side by side. Besides signatures, an expression asks for what its simple names mean in
the inspection context, and only where the frame gives them no meaning, and for the types that it
names itself or may name before a dot. Where these answers are the same at every node, both runs bind
the expression alike. -/
namespace DebugExpr
open Metadata DebugExpr.Bound DebugExpr.Source

namespace Bound.Scope
variable {Same Free : Error → Prop} {Anywhere : Prop} {s : Scope} {snapshot : Snapshot}
  {context : Pseudo.Context}

section Types

mutual

theorem resolveType_tracks (agree : Agree Same Free Anywhere s.snapshot snapshot) :
    (written : TypeExpr) →
    (∀ path ∈ written.paths, (s.moved snapshot context).findNamed? path = s.findNamed? path) →
    Tracks Error.IsPlain (fun _ => False) (s.resolveType written)
      ((s.moved snapshot context).resolveType written)
  | .keyword p, _ => by
    rw [resolveType, resolveType, Snapshot.primitive, Snapshot.primitive, moved_snapshot, agree.core]
    exact .of_raises (Snapshot.coreType_raises _ _)
  | .nullable inner, found => by
    rw [resolveType, resolveType]
    refine (resolveType_tracks agree inner found).bind fun type _ => ?_
    rw [moved_snapshot, agree.core]
    exact .of_raises (Snapshot.coreType_raises _ _)
  | .array element rank, found => by
    rw [resolveType, resolveType]
    exact (resolveType_tracks agree element found).bind fun _ _ => .ok _
  | .named isGlobal segments, found => by
    obtain ⟨whole, found⟩ := List.forall_mem_cons.mp found
    rw [resolveType, resolveType]
    generalize same : segments.map _ = path
    have whole : (s.moved snapshot context).findNamed? path = s.findNamed? path := by
      subst same
      exact whole
    rw [whole]
    refine (resolveSegments_tracks agree segments found).bind fun args _ => ?_
    split
    · exact .same rfl
    split
    · exact .same rfl
    · exact .ok _

theorem resolveSegments_tracks (agree : Agree Same Free Anywhere s.snapshot snapshot) :
    (segments : List (String × List TypeExpr)) →
    (∀ path ∈ TypeExpr.pathsOfSegments segments,
      (s.moved snapshot context).findNamed? path = s.findNamed? path) →
    Tracks Error.IsPlain (fun _ => False) (s.resolveSegments segments)
      ((s.moved snapshot context).resolveSegments segments)
  | [], _ => .ok _
  | (_, args) :: rest, found => by
    obtain ⟨own, later⟩ := List.forall_mem_append.mp found
    exact (resolveTypes_tracks agree args own).bind fun _ _ =>
      (resolveSegments_tracks agree rest later).bind fun _ _ => .ok _

theorem resolveTypes_tracks (agree : Agree Same Free Anywhere s.snapshot snapshot) :
    (written : List TypeExpr) →
    (∀ path ∈ TypeExpr.pathsOfAll written,
      (s.moved snapshot context).findNamed? path = s.findNamed? path) →
    Tracks Error.IsPlain (fun _ => False) (s.resolveTypes written)
      ((s.moved snapshot context).resolveTypes written)
  | [], _ => .ok _
  | t :: rest, found => by
    obtain ⟨first, later⟩ := List.forall_mem_append.mp found
    exact (resolveType_tracks agree t first).bind fun _ _ =>
      (resolveTypes_tracks agree rest later).bind fun _ _ => .ok _

end

end Types

@[simp]
theorem moved_ownMember? (found : Option Member) :
    (s.moved snapshot context).ownMember? found = s.ownMember? found :=
  rfl

/-- The name means a local, a parameter, or a field or property of the containing type that is in
reach of the method. -/
def Ordinary (s : Scope) (name : String) : Prop :=
  (s.frame.local? name).isSome ∨ (s.frame.parameter? name).isSome ∨
    ∃ found term, s.findMember s.frame.containing name false = .ok found ∧
      s.ownMember? found = some term

/-- The type that is looked for where an expression before a dot is an unknown name. -/
def receiverPaths (s : Scope) (target : Expr) : List (List (String × Nat)) :=
  match s.bind target with
  | .error (.undefinedName _) => (pathNames? target).toList.map fun path => path.map (·, 0)
  | _ => []

/-- The types that are looked for by name where an expression itself is bound. -/
def ownPaths (s : Scope) : Expr → List (List (String × Nat))
  | .name _ _ typeArgs => TypeExpr.pathsOfAll typeArgs
  | .member _ target _ typeArgs => s.receiverPaths target ++ TypeExpr.pathsOfAll typeArgs
  | .cast _ type _ => type.paths
  | _ => []

end Bound.Scope

/-- A second run that sees another snapshot and another inspection context gets the same answers
wherever binding an expression looks something up, up to errors after which nothing is asked. -/
structure Follows (Same Free : Error → Prop) (Anywhere : Prop) (s : Scope) (snapshot : Snapshot)
    (context : Pseudo.Context) : Prop where
  agree : Agree Same Free Anywhere s.snapshot snapshot
  frame : Anywhere ∨ s.frame.Held s.snapshot
  home : Anywhere ∨ (s.snapshot.get? s.frame.home).isSome

/-- Binding the node itself gets the same answers. -/
structure Answers (Same Free : Error → Prop) (s : Scope) (snapshot : Snapshot)
    (context : Pseudo.Context) (e : Expr) : Prop where
  name : ∀ name ∈ e.simpleName?, ¬s.Ordinary name →
    Tracks Same Free (Pseudo.bind s.resolver s.context name)
      (Pseudo.bind (s.moved snapshot context).resolver context name)
  types : ∀ path ∈ s.ownPaths e, (s.moved snapshot context).findNamed? path = s.findNamed? path

namespace Bound.Scope
variable {Same Free : Error → Prop} {Anywhere : Prop} {s : Scope} {snapshot : Snapshot}
  {context : Pseudo.Context} (follows : Follows Same Free Anywhere s snapshot context)
include follows

theorem simpleNameTerm?_tracks {name : String}
    (supplied : ¬s.Ordinary name → Tracks Same Free (Pseudo.bind s.resolver s.context name)
      (Pseudo.bind (s.moved snapshot context).resolver context name)) :
    Tracks Same Free (s.simpleNameTerm? name)
      ((s.moved snapshot context).simpleNameTerm? name) := by
  simp only [simpleNameTerm?, moved_frame, moved_context, moved_ownMember?]
  split
  · exact .ok _
  next noLocal =>
  split
  · exact .ok _
  next noParameter =>
  refine (findMember_tracks follows.agree
    (follows.frame.imp_right Frame.Held.containing)).bind fun found finds => ?_
  split
  · exact .ok _
  next noMember =>
  refine (supplied ?_).bind fun _ _ => .ok _
  rintro (isLocal | isParameter | ⟨found', term, finds', own⟩)
  · rw [noLocal] at isLocal
    cases isLocal
  · rw [noParameter] at isParameter
    cases isParameter
  · rw [finds] at finds'
    cases finds'
    rw [noMember] at own
    cases own

theorem nameTerm_tracks {name : String} (typeArgs : List TypeExpr)
    (supplied : ¬s.Ordinary name → Tracks Same Free (Pseudo.bind s.resolver s.context name)
      (Pseudo.bind (s.moved snapshot context).resolver context name)) :
    Tracks Same Free (s.nameTerm name typeArgs)
      ((s.moved snapshot context).nameTerm name typeArgs) := by
  refine (simpleNameTerm?_tracks follows supplied).bind fun term? _ => ?_
  cases term? with
  | none => exact .same (follows.agree.plain rfl)
  | some term =>
    dsimp only
    split
    · exact .same (follows.agree.plain rfl)
    · exact .ok _

theorem ownMethods_tracks {name : String} {typeArgs : List TypeExpr}
    (supplied : ¬s.Ordinary name → Tracks Same Free (Pseudo.bind s.resolver s.context name)
      (Pseudo.bind (s.moved snapshot context).resolver context name)) :
    Tracks Same Free (s.ownMethods name typeArgs)
      ((s.moved snapshot context).ownMethods name typeArgs) := by
  have refused := (nameTerm_tracks follows typeArgs supplied).bind
    (f := fun _ => throw Error.methodNameExpected) (g := fun _ => throw Error.methodNameExpected)
    (β := ClosedType × List Method × Option Term) fun _ _ => .same (follows.agree.plain rfl)
  refine (findMember_tracks follows.agree
    (follows.frame.imp_right Frame.Held.containing)).bind fun found finds => ?_
  split
  · rw [moved_frame]
    split
    · exact refused
    · exact .ok _
  · exact refused

omit follows in
/-- No other error than that of an unknown name leads to a type. -/
theorem receiver_of_error {target : Expr} {e : Error} (other : ∀ name, e ≠ .undefinedName name) :
    s.receiver target (.error e) = .error e := by
  unfold receiver
  split
  next failed => cases failed
  next name failed =>
    cases failed
    exact absurd rfl (other name)
  next failed =>
    cases failed
    rfl

/-- What stands before a dot is bound, and looked for as a type where it is an unknown name. -/
theorem receiver_tracks {target : Expr}
    (binds : Tracks Same Free (s.bind target) ((s.moved snapshot context).bind target))
    (types : ∀ path ∈ s.receiverPaths target,
      (s.moved snapshot context).findNamed? path = s.findNamed? path) :
    Tracks Same Free (s.receiver target (s.bind target))
      ((s.moved snapshot context).receiver target ((s.moved snapshot context).bind target)) := by
  unfold receiverPaths at types
  generalize s.bind target = x at binds types
  generalize (s.moved snapshot context).bind target = y at binds
  cases binds with
  | ok term => exact .ok _
  | @free e y free =>
    rw [receiver_of_error]
    · exact .free free
    · rintro name rfl
      exact follows.agree.bound free
  | @same e same =>
    by_cases unknown : ∃ name, e = .undefinedName name
    · obtain ⟨name, rfl⟩ := unknown
      simp only [receiver]
      cases path? : pathNames? target with
      | none => exact .same same
      | some path =>
        have found : (s.moved snapshot context).resolveType
            (.named false (path.map fun part => (part, []))) =
              s.resolveType (.named false (path.map fun part => (part, []))) := by
          refine (resolveType_tracks follows.agree _ ?_).eq
          rw [TypeExpr.paths_plain]
          simpa [path?] using types
        simp only [Option.map_some, found]
        split
        · exact .ok _
        · exact .same same
    · have other : ∀ name, e ≠ .undefinedName name := fun name same => unknown ⟨name, same⟩
      rw [receiver_of_error other, receiver_of_error other]
      exact .same same

omit follows in
theorem receiverType_raises (name : String) (receiver : Receiver) :
    Raises Error.IsPlain (receiverType name receiver) := by
  unfold receiverType
  repeat' split
  all_goals first
    | exact raises_ok
    | exact raises_error rfl

/-- The type of a known receiver is known. -/
theorem memberTerm_tracks {receiver : Receiver} {name : String} {typeArgs : List TypeExpr}
    (known : Anywhere ∨ s.Before (Term.Held s.snapshot) receiver) :
    Tracks Same Free (s.memberTerm receiver name typeArgs)
      ((s.moved snapshot context).memberTerm receiver name typeArgs) := by
  have typed : Tracks Same Free (receiverType name receiver) (receiverType name receiver) :=
    .of_raises ((receiverType_raises name receiver).mono fun _ => follows.agree.plain)
  refine typed.bind fun before found => ?_
  obtain ⟨value, type⟩ := before
  have knownType := known.imp_right fun before => (receiverType_held before found).1
  refine (findMember_tracks follows.agree knownType).bind fun member _ => ?_
  refine .of_raises (Raises.mono (P := Error.IsPlain) ?_ fun _ => follows.agree.plain)
  dsimp only
  repeat' split
  all_goals first
    | exact raises_ok
    | exact raises_error rfl

theorem memberMethods_tracks {receiver : Receiver} {name : String}
    (known : Anywhere ∨ s.Before (Term.Held s.snapshot) receiver) :
    Tracks Same Free (s.memberMethods receiver name)
      ((s.moved snapshot context).memberMethods receiver name) := by
  have typed : Tracks Same Free (receiverType name receiver) (receiverType name receiver) :=
    .of_raises ((receiverType_raises name receiver).mono fun _ => follows.agree.plain)
  refine typed.bind fun before found => ?_
  obtain ⟨value, type⟩ := before
  have knownType := known.imp_right fun before => (receiverType_held before found).1
  refine (findMember_tracks follows.agree knownType).bind fun member _ => ?_
  split
  · exact .ok _
  · exact .same (follows.agree.plain rfl)
  · exact .same (follows.agree.plain rfl)

omit follows in
theorem checkArgument_raises (passing : Passing) (t : Term) :
    Raises Error.IsPlain (checkArgument passing t) := by
  unfold checkArgument
  dsimp only
  split
  · exact raises_error rfl
  · exact raises_ok

omit follows in
theorem checkTarget_raises (t : Term) : Raises Error.IsPlain (checkTarget t) := by
  unfold checkTarget
  split
  · exact raises_ok
  · exact raises_error rfl

/-- A computation that looks nothing up and misses no assembly runs alike. -/
theorem plain_tracks {α : Type} {x : Except Error α} (raises : Raises Error.IsPlain x) :
    Tracks Same Free x x :=
  .of_raises (raises.mono fun _ => follows.agree.plain)

theorem writtenType_tracks {written : TypeExpr}
    (types : ∀ path ∈ written.paths,
      (s.moved snapshot context).findNamed? path = s.findNamed? path) :
    Tracks Same Free (s.resolveType written) ((s.moved snapshot context).resolveType written) :=
  (resolveType_tracks follows.agree written types).mono (fun _ => follows.agree.plain)
    fun _ => False.elim

theorem writtenTypes_tracks {written : List TypeExpr}
    (types : ∀ path ∈ TypeExpr.pathsOfAll written,
      (s.moved snapshot context).findNamed? path = s.findNamed? path) :
    Tracks Same Free (s.resolveTypes written) ((s.moved snapshot context).resolveTypes written) :=
  (resolveTypes_tracks follows.agree written types).mono (fun _ => follows.agree.plain)
    fun _ => False.elim

/-- A bound term is known. -/
theorem bind_known {e : Expr} {t : Term} (binds : s.bind e = .ok t) :
    Anywhere ∨ t.Held s.snapshot :=
  follows.frame.imp_right fun frame => bind_held frame binds

omit follows in
theorem argumentTerms_held (frame : s.frame.Held s.snapshot) {args : List (Passing × Expr)}
    {terms : List (Bool × Term)} (binds : s.argumentTerms args = .ok terms) :
    ∀ arg ∈ terms, arg.2.Held s.snapshot := by
  induction args generalizing terms with
  | nil =>
    obtain rfl := Except.ok.inj binds
    simp
  | cons arg rest ih =>
    obtain ⟨term, bindsFirst, binds⟩ := bind_eq_ok.mp binds
    obtain ⟨arg, checks, binds⟩ := bind_eq_ok.mp binds
    obtain ⟨terms, bindsRest, binds⟩ := bind_eq_ok.mp binds
    obtain rfl := pure_eq_ok.mp binds
    obtain ⟨-, rfl, -⟩ := checkArgument_eq_ok checks
    exact List.forall_mem_cons.mpr ⟨bind_held frame bindsFirst, ih bindsRest⟩

/-- Binding runs alike where it gets the same answers at every node. -/
theorem bind_tracks (e : Expr)
    (answers : ∀ sub ∈ e.subexprs, Answers Same Free s snapshot context sub) :
    Tracks Same Free (s.bind e) ((s.moved snapshot context).bind e) := by
  revert answers
  refine bind.induct s
    (motive_1 := fun e => (∀ sub ∈ e.subexprs, Answers Same Free s snapshot context sub) →
      Tracks Same Free (s.bind e) ((s.moved snapshot context).bind e))
    (motive_2 := fun type indices => s.snapshot.Holds type →
      (∀ sub ∈ Expr.subexprsOfAll indices, Answers Same Free s snapshot context sub) →
      Tracks Same Free (s.indexTerms type indices)
        ((s.moved snapshot context).indexTerms type indices))
    (motive_3 := fun args =>
      (∀ sub ∈ Expr.subexprsOfArgs args, Answers Same Free s snapshot context sub) →
      Tracks Same Free (s.argumentTerms args) ((s.moved snapshot context).argumentTerms args))
    ?name ?global ?literal ?this ?member ?invokeName ?invokeMember ?invokeOther ?index ?cast
    ?negateLiteral ?negate ?binary ?coalesce ?refused ?assign ?noArguments ?argument ?noIndices
    ?indices e
  case name =>
    intro position name typeArgs answers
    exact nameTerm_tracks follows typeArgs ((answers _ (Expr.self_mem_subexprs _)).name name rfl)
  case global => exact fun _ _ _ => .same (follows.agree.plain rfl)
  case literal => exact fun _ value _ => literalTerm_tracks follows.agree value
  case this => exact fun position _ => thisTerm_tracks follows.agree position
  case member =>
    intro _ target name typeArgs ih answers
    obtain ⟨own, inside⟩ := List.forall_mem_cons.mp answers
    have types := (List.forall_mem_append.mp own.types).1
    refine (receiver_tracks follows (ih inside) types).bind fun receiver before => ?_
    exact memberTerm_tracks follows (follows.frame.imp_right fun frame =>
      receiver_eq_ok (fun _ => bind_held frame) before)
  case invokeName =>
    intro _ _ name typeArgs args ih answers
    obtain ⟨-, answers⟩ := List.forall_mem_cons.mp answers
    obtain ⟨own, inside⟩ := List.forall_mem_cons.mp answers
    refine (ownMethods_tracks follows (own.name name rfl)).bind fun found named => ?_
    obtain ⟨declaring, methods, receiver⟩ := found
    refine (writtenTypes_tracks follows own.types).bind fun types resolves => ?_
    refine (ih inside).bind fun terms binds => ?_
    refine callOf_tracks follows.agree follows.home ?_ methods
    exact follows.frame.imp_right fun frame =>
      ⟨findMember_held frame.containing (ownMethods_eq_ok named).1, holds_resolveTypes _ resolves,
        argumentTerms_held frame binds⟩
  case invokeMember =>
    intro _ _ target name typeArgs args ihTarget ihArgs answers
    obtain ⟨-, answers⟩ := List.forall_mem_cons.mp answers
    obtain ⟨own, inside⟩ := List.forall_mem_cons.mp answers
    obtain ⟨insideTarget, insideArgs⟩ := List.forall_mem_append.mp inside
    obtain ⟨paths, typePaths⟩ := List.forall_mem_append.mp own.types
    refine (receiver_tracks follows (ihTarget insideTarget) paths).bind fun receiver before => ?_
    have known := follows.frame.imp_right fun frame =>
      receiver_eq_ok (P := Term.Held s.snapshot) (fun _ => bind_held frame) before
    refine (memberMethods_tracks follows known).bind fun found named => ?_
    obtain ⟨declaring, methods, value⟩ := found
    refine (writtenTypes_tracks follows typePaths).bind fun types resolves => ?_
    refine (ihArgs insideArgs).bind fun terms binds => ?_
    refine callOf_tracks follows.agree follows.home ?_ methods
    refine follows.frame.imp_right fun frame => ?_
    obtain ⟨type, typed, finds⟩ := memberMethods_eq_ok named
    have before := receiver_eq_ok (P := Term.Held s.snapshot) (fun _ => bind_held frame) before
    exact ⟨findMember_held (receiverType_held before typed).1 finds, holds_resolveTypes _ resolves,
      argumentTerms_held frame binds⟩
  case invokeOther =>
    intro _ target args notName notMember ih answers
    obtain ⟨-, inside⟩ := List.forall_mem_cons.mp answers
    rw [bind, bind]
    · exact (ih (List.forall_mem_append.mp inside).1).bind fun _ _ =>
        .same (follows.agree.plain rfl)
    all_goals first
      | exact notName
      | exact notMember
  case index =>
    intro _ target indices ih ihIndices answers
    obtain ⟨-, inside⟩ := List.forall_mem_cons.mp answers
    obtain ⟨insideTarget, insideIndices⟩ := List.forall_mem_append.mp inside
    refine (ih insideTarget).bind fun array _ => ?_
    refine (plain_tracks follows (elementType_raises _ _)).bind fun element _ => ?_
    refine (Snapshot.primitive_tracks follows.agree _).bind fun int named => ?_
    exact (ihIndices int (Snapshot.holds_primitive named) insideIndices).bind fun _ _ => .ok _
  case cast =>
    intro _ type operand ih answers
    obtain ⟨own, inside⟩ := List.forall_mem_cons.mp answers
    refine (writtenType_tracks follows own.types).bind fun wanted resolves => ?_
    refine (ih inside).bind fun t binds => ?_
    exact convert_tracks follows.agree (bind_known follows binds)
      (.inr (holds_resolveType _ resolves))
  case negateLiteral => exact fun _ _ value _ => negatedLiteral_tracks follows.agree _
  case negate =>
    intro _ operand notLiteral ih answers
    obtain ⟨-, inside⟩ := List.forall_mem_cons.mp answers
    rw [bind, bind]
    · exact (ih inside).bind fun t binds => negate_tracks follows.agree (bind_known follows binds)
    all_goals exact notLiteral
  case binary =>
    intro _ op left right ihLeft ihRight answers
    obtain ⟨-, inside⟩ := List.forall_mem_cons.mp answers
    obtain ⟨insideLeft, insideRight⟩ := List.forall_mem_append.mp inside
    refine (ihLeft insideLeft).bind fun l bindsLeft => ?_
    have knownLeft := bind_known follows bindsLeft
    refine (promote_tracks follows.agree knownLeft).bind fun l' promotesLeft => ?_
    refine (ihRight insideRight).bind fun r bindsRight => ?_
    have knownRight := bind_known follows bindsRight
    refine (promote_tracks follows.agree knownRight).bind fun r' promotesRight => ?_
    exact arithmetic_tracks follows.agree
      (knownLeft.imp_right fun held => promote_held held promotesLeft)
      (knownRight.imp_right fun held => promote_held held promotesRight)
  case coalesce =>
    intro _ left right ihLeft ihRight answers
    obtain ⟨-, inside⟩ := List.forall_mem_cons.mp answers
    obtain ⟨insideLeft, insideRight⟩ := List.forall_mem_append.mp inside
    refine (ihLeft insideLeft).bind fun l bindsLeft => ?_
    refine (ihRight insideRight).bind fun r bindsRight => ?_
    exact coalesceTerm_tracks follows.agree (bind_known follows bindsLeft)
      (bind_known follows bindsRight)
  case refused =>
    intro _ target op value refused _ _ answers
    rw [bind, bind, moved_allowsSideEffects, if_pos refused, if_pos refused]
    exact .same (follows.agree.plain rfl)
  case assign =>
    intro _ target op value allowed ihTarget ihValue answers
    obtain ⟨-, inside⟩ := List.forall_mem_cons.mp answers
    obtain ⟨insideTarget, insideValue⟩ := List.forall_mem_append.mp inside
    rw [bind, bind, moved_allowsSideEffects, if_neg allowed, if_neg allowed]
    refine (ihTarget insideTarget).bind fun t bindsTarget => ?_
    refine (plain_tracks follows (checkTarget_raises t)).bind fun t' checks => ?_
    obtain ⟨rfl, -⟩ := checkTarget_eq_ok checks
    refine (ihValue insideValue).bind fun v bindsValue => ?_
    exact assign_tracks follows.agree (bind_known follows bindsTarget)
      (bind_known follows bindsValue)
  case noArguments => exact fun _ => .ok _
  case argument =>
    intro passing expr rest ih ihRest answers
    obtain ⟨first, later⟩ := List.forall_mem_append.mp answers
    refine (ih first).bind fun t _ => ?_
    refine (plain_tracks follows (checkArgument_raises passing t)).bind fun arg _ => ?_
    exact (ihRest later).bind fun _ _ => .ok _
  case noIndices => exact fun _ _ _ => .ok _
  case indices =>
    intro type expr rest ih ihRest holds answers
    obtain ⟨first, later⟩ := List.forall_mem_append.mp answers
    refine (ih first).bind fun t binds => ?_
    refine (convert_tracks follows.agree (bind_known follows binds) (.inr holds)).bind
      fun index _ => ?_
    exact (ihRest holds later).bind fun _ _ => .ok _

end Bound.Scope

end DebugExpr
