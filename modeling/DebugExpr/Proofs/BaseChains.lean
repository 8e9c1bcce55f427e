import DebugExpr.Metadata.Snapshot
import DebugExpr.Proofs.ReadingErrors
import DebugExpr.Proofs.Success

/-! Chains of base types. Each type of a chain is made while it is followed, since a base type is
written in terms of the parameters of the type below it; a chain may come back to a type, grow
without end or run into a signature that cannot be bound. A search along a chain ends for one of
three reasons, and which one it is depends on the chain and on the limit alone. -/
namespace DebugExpr

/-- The error of a signature that cannot be bound. -/
def Error.OfSignature : Error → Prop
  | .missingAssembly _ | .typeNotFound _ | .unsupportedType _ | .malformed _ => True
  | _ => False

namespace Metadata.Snapshot
variable {s : Snapshot} {derived base type type' next : ClosedType} {limit steps m n : Nat}

section Bases
variable {scope : ModuleId} {typeArgs methodArgs : List ClosedType}

theorem locate_ofSignature (assembly : Option String) (name : String) :
    Raises Error.OfSignature (s.locate scope assembly name) := by
  unfold locate
  repeat' split
  all_goals first
    | exact raises_ok
    | exact raises_error trivial

mutual

theorem bind_ofSignature : (signature : Signature) →
    Raises Error.OfSignature (s.bind scope typeArgs methodArgs signature)
  | .named assembly name args => by
    rw [Snapshot.bind]
    refine (locate_ofSignature assembly name).bind fun found => ?_
    dsimp only
    split
    · exact raises_error trivial
    · exact (bindAll_ofSignature args).bind fun _ => raises_ok
  | .typeParameter index => by
    rw [Snapshot.bind]
    split
    · exact raises_ok
    · exact raises_error trivial
  | .methodParameter index => by
    rw [Snapshot.bind]
    split
    · exact raises_ok
    · exact raises_error trivial
  | .array element rank => (bind_ofSignature element).bind fun _ => raises_ok

theorem bindAll_ofSignature : (signatures : List Signature) →
    Raises Error.OfSignature (s.bindAll scope typeArgs methodArgs signatures)
  | [] => raises_ok
  | signature :: rest =>
    (bind_ofSignature signature).bind fun _ => (bindAll_ofSignature rest).bind fun _ => raises_ok

end

theorem coreType_ofSignature (name : String) (args : List ClosedType) :
    Raises Error.OfSignature (s.coreType name args) := by
  unfold coreType
  repeat' split
  all_goals first
    | exact raises_ok
    | exact raises_error trivial

/-- A step to a base type fails where its signature cannot be bound. -/
theorem baseType_ofSignature (type : ClosedType) : Raises Error.OfSignature (s.baseType type) := by
  cases type with
  | named home d args =>
    rw [baseType]
    split
    · exact (bind_ofSignature _).bind fun _ => raises_ok
    · exact raises_ok
  | array element rank =>
    rw [baseType]
    split
    · exact raises_ok
    · exact (coreType_ofSignature _ _).bind fun _ => raises_ok

end Bases

/-- A number of steps to base types leads from one type to another. -/
inductive Climbs (s : Snapshot) (derived : ClosedType) : Nat → ClosedType → Prop
  | start : Climbs s derived 0 derived
  | step {n : Nat} {type next : ClosedType} (climbs : Climbs s derived n type)
    (inherits : s.baseType type = .ok (some next)) : Climbs s derived (n + 1) next

/-- A chain goes one way. -/
theorem Climbs.unique (climbs : s.Climbs derived n type) (climbs' : s.Climbs derived n type') :
    type = type' := by
  induction climbs generalizing type' with
  | start =>
    cases climbs'
    rfl
  | step _ inherits ih =>
    obtain _ | ⟨before, inherits'⟩ := climbs'
    cases ih before
    exact Option.some.inj (Except.ok.inj (inherits.symm.trans inherits'))

/-- The chain of a type goes on with that of its base type. -/
theorem climbs_succ (inherits : s.baseType derived = .ok (some next)) :
    s.Climbs derived (n + 1) type ↔ s.Climbs next n type := by
  constructor
  · intro climbs
    induction n generalizing type with
    | zero =>
      obtain _ | ⟨_ | _, inherits'⟩ := climbs
      cases inherits.symm.trans inherits'
      exact .start
    | succ n ih =>
      obtain _ | ⟨before, further⟩ := climbs
      exact .step (ih before) further
  · intro climbs
    induction climbs with
    | start => exact .step .start inherits
    | step _ further ih => exact .step ih further

/-- A chain has all types before the ones that it has. -/
theorem Climbs.before (climbs : s.Climbs derived n type) (earlier : m < n) :
    ∃ type' next, s.Climbs derived m type' ∧ s.baseType type' = .ok (some next) := by
  induction climbs with
  | start => exact absurd earlier (Nat.not_lt_zero m)
  | @step n type next climbs inherits ih =>
    rcases Nat.lt_or_eq_of_le (Nat.le_of_lt_succ earlier) with further | rfl
    · exact ih further
    · exact ⟨type, next, climbs, inherits⟩

section Arguments
variable {home home' : ModuleId} {d d' : TypeDefinition} {args : List ClosedType}
  {links : List (ModuleId × List Signature)}

/-- Base types as definitions write them. Each link is a module and the arguments that a definition
of it writes behind the name of its base type, in terms of its own parameters. -/
inductive Links (s : Snapshot) (home : ModuleId) (d : TypeDefinition) :
    List (ModuleId × List Signature) → ModuleId → TypeDefinition → Prop
  | start : Links s home d [] home d
  | step {links : List (ModuleId × List Signature)} {here next : ModuleId}
    {below above : TypeDefinition} {assembly : Option String} {name : String}
    {written : List Signature} (before : Links s home d links here below)
    (base : below.base = some (.named assembly name written))
    (located : s.locate here assembly name = .ok (next, above)) :
    Links s home d (links ++ [(here, written)]) next above

/-- Arguments put for the parameters of the first link, the arguments that it writes for those of
the next one, and so on. -/
def passOn (s : Snapshot) (args : List ClosedType) (links : List (ModuleId × List Signature)) :
    Except Error (List ClosedType) :=
  links.foldlM (fun args (home, written) => s.bindAll home args [] written) args

/-- Which definitions a chain leads to does not depend on arguments, and the arguments of the type
that it reaches are composed of those that are written on the way. -/
theorem Links.passOn (chain : s.Links home d links home' d')
    (climbs : s.Climbs (.named home d args) links.length type) :
    ∃ args', type = .named home' d' args' ∧ s.passOn args links = .ok args' := by
  induction chain generalizing type with
  | start =>
    cases climbs
    exact ⟨args, rfl, rfl⟩
  | @step links here next below above assembly name written _ base located ih =>
    rw [List.length_append] at climbs
    obtain _ | ⟨before, inherits⟩ := climbs
    obtain ⟨passed, rfl, passes⟩ := ih before
    rw [baseType, base] at inherits
    obtain ⟨made, binds, same⟩ := bind_eq_ok.mp inherits
    obtain rfl := Option.some.inj (pure_eq_ok.mp same)
    rw [Snapshot.bind, located, ok_bind] at binds
    dsimp only at binds
    split at binds
    · simp at binds
    · obtain ⟨types, bindsArgs, made⟩ := bind_eq_ok.mp binds
      obtain rfl := pure_eq_ok.mp made
      refine ⟨types, rfl, ?_⟩
      rw [Snapshot.passOn, List.foldlM_append, ← Snapshot.passOn, passes]
      simpa [ok_bind] using bindsArgs

end Arguments

/-- The step from the type to a base type fails, or there is no base type. -/
def IsLast (s : Snapshot) (type : ClosedType) : Prop :=
  ∀ next, s.baseType type ≠ .ok (some next)

/-- Nothing is behind the last type. -/
theorem IsLast.le (last : s.IsLast type) (climbs : s.Climbs derived n type)
    (climbs' : s.Climbs derived m type') : m ≤ n := by
  refine Nat.le_of_not_lt fun behind => ?_
  obtain ⟨here, next, here', inherits⟩ := climbs'.before behind
  cases climbs.unique here'
  exact last next inherits

/-- No type of the chain is the one that is looked for. -/
def Avoids (s : Snapshot) (derived base : ClosedType) : Prop :=
  ∀ n type, s.Climbs derived n type → (type == base) = false

/-- All steps lead to other types. -/
def Outlasts (s : Snapshot) (derived base : ClosedType) (steps : Nat) : Prop :=
  ∀ n ≤ steps, ∃ type, s.Climbs derived n type ∧ (type == base) = false

/-- What the search for a type comes to, on the chain of another type and within a number of steps:
it is found, or the chain stops without it, or all steps are taken. -/
inductive Search (s : Snapshot) (base : ClosedType) (limit steps : Nat) (derived : ClosedType) :
    Except Error Bool → Prop
  | found {n : Nat} {type : ClosedType} (within : n ≤ steps) (climbs : s.Climbs derived n type)
    (same : (type == base) = true) : Search s base limit steps derived (.ok true)
  | stopped {n : Nat} {type : ClosedType} (within : n < steps) (climbs : s.Climbs derived n type)
    (last : s.IsLast type) (avoids : s.Avoids derived base) :
    Search s base limit steps derived ((s.baseType type).map fun _ => false)
  | cutOff (outlasts : s.Outlasts derived base steps) :
    Search s base limit steps derived (.error (.recursionLimit limit))

theorem IsLast.avoids (last : s.IsLast derived) (different : (derived == base) = false) :
    s.Avoids derived base := by
  intro n type climbs
  obtain rfl := Nat.le_zero.mp (last.le .start climbs)
  cases climbs
  exact different

theorem Avoids.step (avoids : s.Avoids next base)
    (inherits : s.baseType derived = .ok (some next)) (different : (derived == base) = false) :
    s.Avoids derived base := by
  intro n type climbs
  cases n with
  | zero =>
    cases climbs
    exact different
  | succ n => exact avoids n type ((climbs_succ inherits).mp climbs)

theorem Outlasts.not_found (outlasts : s.Outlasts derived base steps) (within : n ≤ steps)
    (climbs : s.Climbs derived n type) (same : (type == base) = true) : False := by
  obtain ⟨type', climbs', other⟩ := outlasts n within
  cases climbs.unique climbs'
  exact absurd same (Bool.eq_false_iff.mp other)

theorem Outlasts.not_stopped (outlasts : s.Outlasts derived base steps) (within : n < steps)
    (climbs : s.Climbs derived n type) (last : s.IsLast type) : False := by
  obtain ⟨type', climbs', -⟩ := outlasts (n + 1) within
  exact absurd (last.le climbs climbs') (Nat.not_succ_le_self n)

namespace Search
variable {answer answer' : Except Error Bool}

/-- Below another type the search comes to the same, with one step more. -/
theorem step (search : s.Search base limit steps next answer)
    (inherits : s.baseType derived = .ok (some next)) (different : (derived == base) = false) :
    s.Search base limit (steps + 1) derived answer := by
  cases search with
  | found within climbs same =>
    exact .found (Nat.succ_le_succ within) ((climbs_succ inherits).mpr climbs) same
  | stopped within climbs last avoids =>
    exact .stopped (Nat.succ_lt_succ within) ((climbs_succ inherits).mpr climbs) last
      (avoids.step inherits different)
  | cutOff outlasts =>
    refine .cutOff fun n within => ?_
    cases n with
    | zero => exact ⟨derived, .start, different⟩
    | succ n =>
      obtain ⟨type, climbs, other⟩ := outlasts n (Nat.le_of_succ_le_succ within)
      exact ⟨type, (climbs_succ inherits).mpr climbs, other⟩

/-- The reasons for which a search ends exclude each other. -/
theorem unique (search : s.Search base limit steps derived answer)
    (search' : s.Search base limit steps derived answer') : answer = answer' := by
  cases search with
  | found within climbs same =>
    cases search' with
    | found => rfl
    | stopped _ _ _ avoids => exact absurd same (Bool.eq_false_iff.mp (avoids _ _ climbs))
    | cutOff outlasts => exact (outlasts.not_found within climbs same).elim
  | stopped within climbs last avoids =>
    cases search' with
    | found _ climbs' same => exact absurd same (Bool.eq_false_iff.mp (avoids _ _ climbs'))
    | stopped _ climbs' last' =>
      obtain rfl := Nat.le_antisymm (last'.le climbs' climbs) (last.le climbs climbs')
      rw [climbs.unique climbs']
    | cutOff outlasts => exact (outlasts.not_stopped within climbs last).elim
  | cutOff outlasts =>
    cases search' with
    | found within climbs same => exact (outlasts.not_found within climbs same).elim
    | stopped within climbs last => exact (outlasts.not_stopped within climbs last).elim
    | cutOff => rfl

theorem eq_iff (search : s.Search base limit steps derived answer) :
    answer = answer' ↔ s.Search base limit steps derived answer' :=
  ⟨fun same => same ▸ search, search.unique⟩

theorem true_iff : s.Search base limit steps derived (.ok true) ↔
    ∃ n ≤ steps, ∃ type, s.Climbs derived n type ∧ (type == base) = true := by
  constructor
  · intro search
    generalize isAnswer : (Except.ok true : Except Error Bool) = answer at search
    cases search with
    | found within climbs same => exact ⟨_, within, _, climbs, same⟩
    | @stopped _ type =>
      cases inherits : s.baseType type <;> simp [inherits, Except.map] at isAnswer
    | cutOff => cases isAnswer
  · rintro ⟨n, within, type, climbs, same⟩
    exact .found within climbs same

theorem false_iff : s.Search base limit steps derived (.ok false) ↔ s.Avoids derived base ∧
    ∃ n < steps, ∃ type, s.Climbs derived n type ∧ s.baseType type = .ok none := by
  constructor
  · intro search
    generalize isAnswer : (Except.ok false : Except Error Bool) = answer at search
    cases search with
    | found => cases isAnswer
    | @stopped n type within climbs last avoids =>
      refine ⟨avoids, n, within, type, climbs, ?_⟩
      rcases inherits : s.baseType type with e | _ | next
      · simp [inherits, Except.map] at isAnswer
      · rfl
      · exact absurd inherits (last next)
    | cutOff => cases isAnswer
  · rintro ⟨avoids, n, within, type, climbs, root⟩
    have stopped : s.Search base limit steps derived ((s.baseType type).map fun _ => false) :=
      .stopped within climbs (by simp [IsLast, root]) avoids
    rwa [root] at stopped

theorem error_iff {e : Error} : s.Search base limit steps derived (.error e) ↔
    (s.Avoids derived base ∧
      ∃ n < steps, ∃ type, s.Climbs derived n type ∧ s.baseType type = .error e) ∨
    (e = .recursionLimit limit ∧ s.Outlasts derived base steps) := by
  constructor
  · intro search
    generalize isAnswer : (Except.error e : Except Error Bool) = answer at search
    cases search with
    | found => cases isAnswer
    | stopped within climbs last avoids =>
      exact .inl ⟨avoids, _, within, _, climbs, eq_error_of_map isAnswer.symm⟩
    | cutOff outlasts => exact .inr ⟨Except.error.inj isAnswer, outlasts⟩
  · rintro (⟨avoids, n, within, type, climbs, fails⟩ | ⟨rfl, outlasts⟩)
    · have stopped : s.Search base limit steps derived ((s.baseType type).map fun _ => false) :=
        .stopped within climbs (by simp [IsLast, fails]) avoids
      rwa [fails] at stopped
    · exact .cutOff outlasts

end Search

theorem inheritsWithin_search (s : Snapshot) (base : ClosedType) (limit steps : Nat)
    (derived : ClosedType) :
    s.Search base limit steps derived (s.inheritsWithin limit base steps derived) := by
  induction steps generalizing derived with
  | zero =>
    unfold inheritsWithin
    split
    · rename_i same
      exact .found (Nat.le_refl 0) .start same
    · rename_i different
      refine .cutOff fun n within => ?_
      obtain rfl := Nat.le_zero.mp within
      exact ⟨derived, .start, by simpa using different⟩
  | succ steps ih =>
    unfold inheritsWithin
    split
    · rename_i same
      exact .found (Nat.zero_le _) .start same
    · rename_i different
      rw [Bool.not_eq_true] at different
      have stops (last : s.IsLast derived) : s.Search base limit (steps + 1) derived
          ((s.baseType derived).map fun _ => false) :=
        .stopped (Nat.succ_pos steps) .start last (last.avoids different)
      cases inherits : s.baseType derived with
      | error e =>
        rw [inherits] at stops
        exact stops (by simp [IsLast, inherits])
      | ok next? =>
        cases next? with
        | none =>
          rw [inherits] at stops
          exact stops (by simp [IsLast, inherits])
        | some next => exact (ih next).step inherits different

/-- A type inherits from another one if that is reached in as many steps as the limit says, or
fewer. It does not if its chain ends in fewer steps and without that type. The first step that fails
decides before either, and if all steps lead to other types, the limit is reported, which nothing
else reports. -/
theorem inheritsFrom_outcome (s : Snapshot) (derived base : ClosedType) (limit : Nat) :
    (s.inheritsFrom derived base limit = .ok true ↔
      ∃ n ≤ limit, ∃ type, s.Climbs derived n type ∧ (type == base) = true) ∧
    (s.inheritsFrom derived base limit = .ok false ↔ s.Avoids derived base ∧
      ∃ n < limit, ∃ type, s.Climbs derived n type ∧ s.baseType type = .ok none) ∧
    (∀ e, s.inheritsFrom derived base limit = .error e ↔
      (s.Avoids derived base ∧
        ∃ n < limit, ∃ type, s.Climbs derived n type ∧ s.baseType type = .error e) ∨
      (e = .recursionLimit limit ∧ s.Outlasts derived base limit)) ∧
    (∀ m, s.inheritsFrom derived base limit = .error (.recursionLimit m) ↔
      m = limit ∧ s.Outlasts derived base limit) := by
  have search : s.Search base limit limit derived (s.inheritsFrom derived base limit) :=
    inheritsWithin_search s base limit limit derived
  refine ⟨search.eq_iff.trans Search.true_iff, search.eq_iff.trans Search.false_iff,
    fun e => search.eq_iff.trans Search.error_iff, fun m => ?_⟩
  rw [search.eq_iff, Search.error_iff, Error.recursionLimit.injEq]
  -- no step of the chain reports a limit
  refine or_iff_right ?_
  rintro ⟨-, -, -, type, -, fails⟩
  exact baseType_ofSignature type _ fails

/-- A root class and a class that inherits from itself, with a larger argument at each step. -/
def growing : Snapshot :=
  empty.add <| .build ⟨"App", ⟨1, 0, 0, 0⟩, none, none⟩
    [{ fullName := "System.Object", kind := .classType, primitive := some .object },
      { fullName := "Grow\x601", kind := .classType,
        base := some (.named none "Grow\x601" [.named none "Grow\x601" [.typeParameter 0]]) }]

example : (do
    let root ← growing.bind ⟨0⟩ [] [] (.ofPrimitive .object)
    let derived ← growing.bind ⟨0⟩ [root] [] (.named none "Grow\x601" [.typeParameter 0])
    growing.inheritsFrom derived root 4) = .error (.recursionLimit 4) := by
  rfl

end Metadata.Snapshot

end DebugExpr
