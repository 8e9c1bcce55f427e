import DebugExpr.Bound.Inference
import DebugExpr.Proofs.HeldTypes
import DebugExpr.Proofs.TypeIdentity

/-! Inferred type arguments are the only ones that fit. The types that stand at the places of a
method's parameters are proposed for them, and the slots of inference hold what was proposed so far:
so the order of the proposals, and with it that of parameters and arguments, makes no difference. -/
namespace DebugExpr.Bound
open Metadata

/-- At a place where the signature has a parameter of the method, the type has this type. Arrays of
one rank are compared by their elements, and generic arguments position by position. -/
inductive Places : Signature → ClosedType → Nat → ClosedType → Prop
  | parameter {index : Nat} {type : ClosedType} : Places (.methodParameter index) type index type
  | element {signature : Signature} {actual : ClosedType} {rank index : Nat} {type : ClosedType}
      (inner : Places signature actual index type) :
      Places (.array signature rank) (.array actual rank) index type
  | argument {assembly : Option String} {name : String} {signatures : List Signature}
      {home : ModuleId} {d : TypeDefinition} {actuals : List ClosedType} {k index : Nat}
      {signature : Signature} {actual type : ClosedType} (declared : signatures[k]? = some signature)
      (given : actuals[k]? = some actual) (inner : Places signature actual index type) :
      Places (.named assembly name signatures) (.named home d actuals) index type

/-- A typed argument has the type at a place where its parameter's signature has the parameter of
the method. -/
def Proposed (params : List Parameter) (args : List Term) (index : Nat) (type : ClosedType) : Prop :=
  ∃ pair ∈ params.zip args, ∃ actual, pair.2.type? = some actual ∧
    Places pair.1.signature actual index type

mutual

/-- The types at the places of the method's parameters, from left to right. -/
def proposals : Signature → ClosedType → List (Nat × ClosedType)
  | .methodParameter index, type => [(index, type)]
  | .array element rank, .array actual actualRank =>
    if actualRank = rank then proposals element actual else []
  | .named _ _ signatures, type => proposalsAll signatures type.args
  | .array .., .named .. => []
  | .typeParameter _, _ => []

def proposalsAll : List Signature → List ClosedType → List (Nat × ClosedType)
  | signature :: signatures, type :: types =>
    proposals signature type ++ proposalsAll signatures types
  | _, _ => []

end

/-- One proposal after the other. -/
def Inferred.assignAll (inferred : Inferred) (ps : List (Nat × ClosedType)) : Option Inferred :=
  ps.foldlM (fun inferred p => inferred.assign p.1 p.2) inferred

theorem Inferred.assignAll_append (inferred : Inferred) (ps qs : List (Nat × ClosedType)) :
    inferred.assignAll (ps ++ qs) = (do (← inferred.assignAll ps).assignAll qs) :=
  List.foldlM_append

mutual

theorem matchSignature_eq : (signature : Signature) → (type : ClosedType) → (inferred : Inferred) →
    matchSignature signature type inferred = inferred.assignAll (proposals signature type)
  | .methodParameter index, type, inferred => by
    simp [matchSignature, proposals, Inferred.assignAll]
  | .array element rank, .array actual actualRank, inferred => by
    rw [matchSignature, proposals]
    split
    · exact matchSignature_eq element actual inferred
    · rfl
  | .named _ _ signatures, type, inferred => matchSignatures_eq signatures type.args inferred
  | .array .., .named .., _ => rfl
  | .typeParameter _, _, _ => rfl

theorem matchSignatures_eq : (signatures : List Signature) → (types : List ClosedType) →
    (inferred : Inferred) →
    matchSignatures signatures types inferred = inferred.assignAll (proposalsAll signatures types)
  | [], _, _ => rfl
  | _ :: _, [], _ => rfl
  | signature :: signatures, type :: types, inferred => by
    rw [matchSignatures, proposalsAll, Inferred.assignAll_append, matchSignature_eq signature]
    exact bind_congr fun next => matchSignatures_eq signatures types next

end

/-- What all arguments propose, from left to right. -/
def allProposals (params : List Parameter) (args : List Term) : List (Nat × ClosedType) :=
  (params.zip args).flatMap fun pair =>
    match pair.2.type? with
    | some actual => proposals pair.1.signature actual
    | none => []

theorem matchParameters_eq (params : List Parameter) (args : List Term) (inferred : Inferred) :
    matchParameters params args inferred = inferred.assignAll (allProposals params args) := by
  induction params generalizing args inferred with
  | nil => rfl
  | cons p params ih =>
    cases args with
    | nil => rfl
    | cons arg args =>
      rw [matchParameters, allProposals, List.zip_cons_cons, List.flatMap_cons,
        Inferred.assignAll_append]
      cases arg.type? with
      | none => exact ih args inferred
      | some actual =>
        simp only [matchSignature_eq]
        exact bind_congr fun next => ih args next

mutual

theorem mem_proposals {index : Nat} {type : ClosedType} : {signature : Signature} →
    {actual : ClosedType} →
    ((index, type) ∈ proposals signature actual ↔ Places signature actual index type)
  | .methodParameter own, actual => by
    constructor
    · intro member
      cases List.mem_singleton.mp member
      exact .parameter
    · rintro ⟨⟩
      exact List.mem_singleton_self _
  | .array element rank, .array actual actualRank => by
    rw [proposals]
    constructor
    · intro member
      split at member
      · next same =>
        subst same
        exact .element (mem_proposals.mp member)
      · cases member
    · rintro ⟨⟩
      rw [if_pos rfl]
      rename_i inner
      exact mem_proposals.mpr inner
  | .named _ _ signatures, .named _ _ actuals => by
    rw [proposals, ClosedType.args, mem_proposalsAll]
    constructor
    · rintro ⟨k, signature, actual, declared, given, inner⟩
      exact .argument declared given inner
    · intro places
      cases places with
      | argument declared given inner => exact ⟨_, _, _, declared, given, inner⟩
  | .named _ _ signatures, .array .. => by
    have none : proposalsAll signatures [] = [] := by cases signatures <;> rfl
    rw [proposals, ClosedType.args, none]
    exact ⟨nofun, nofun⟩
  | .array .., .named .. => ⟨nofun, nofun⟩
  | .typeParameter _, _ => ⟨nofun, nofun⟩

theorem mem_proposalsAll {index : Nat} {type : ClosedType} : {signatures : List Signature} →
    {actuals : List ClosedType} →
    ((index, type) ∈ proposalsAll signatures actuals ↔ ∃ (k : Nat) (signature : Signature)
      (actual : ClosedType), signatures[k]? = some signature ∧ actuals[k]? = some actual ∧
      Places signature actual index type)
  | [], _ => by simp [proposalsAll]
  | _ :: _, [] => by simp [proposalsAll]
  | signature :: signatures, actual :: actuals => by
    rw [proposalsAll, List.mem_append, mem_proposals, mem_proposalsAll]
    constructor
    · rintro (inner | ⟨k, signature, actual, declared, given, inner⟩)
      · exact ⟨0, _, _, rfl, rfl, inner⟩
      · exact ⟨k + 1, _, _, declared, given, inner⟩
    · rintro ⟨_ | k, signature, actual, declared, given, inner⟩
      · cases declared
        cases given
        exact .inl inner
      · exact .inr ⟨k, _, _, declared, given, inner⟩

end

theorem mem_allProposals {params : List Parameter} {args : List Term} {index : Nat}
    {type : ClosedType} :
    (index, type) ∈ allProposals params args ↔ Proposed params args index type := by
  rw [allProposals, List.mem_flatMap, Proposed]
  refine exists_congr fun pair => and_congr_right fun _ => ?_
  cases pair.2.type? with
  | none => simp
  | some actual => simp [mem_proposals]

/-- Of the proposals that were taken so far each agrees with the slot that it is for, and each slot
that is filled holds one of them. -/
structure Inferred.Holds (inferred : Inferred) (ps : List (Nat × ClosedType)) : Prop where
  agrees : ∀ p ∈ ps, ∃ t, inferred[p.1]? = some (some t) ∧ (t == p.2) = true
  proposed : ∀ index t, inferred[index]? = some (some t) → (index, t) ∈ ps

/-- Two proposals for the same parameter are the same, and each is for one that exists. -/
def Consistent (count : Nat) (ps : List (Nat × ClosedType)) : Prop :=
  (∀ p ∈ ps, p.1 < count) ∧ ∀ p ∈ ps, ∀ q ∈ ps, p.1 = q.1 → (p.2 == q.2) = true

section Slots
variable {inferred inferred' : Inferred} {ps qs : List (Nat × ClosedType)}

theorem Inferred.assign_length {index : Nat} {type : ClosedType}
    (assigned : inferred.assign index type = some inferred') :
    inferred'.length = inferred.length := by
  unfold assign at assigned
  split at assigned
  · cases assigned
  · cases assigned
    exact List.length_set
  · split at assigned
    · cases assigned
      rfl
    · cases assigned

/-- A proposal that is taken fills its slot or agrees with it, and leaves all others. -/
theorem Inferred.Holds.assign {index : Nat} {type : ClosedType} (holds : inferred.Holds ps)
    (assigned : inferred.assign index type = some inferred') :
    inferred'.Holds (ps ++ [(index, type)]) := by
  unfold Inferred.assign at assigned
  split at assigned
  · cases assigned
  · next empty =>
    cases assigned
    have bound := (List.getElem?_eq_some_iff.mp empty).1
    have own : (inferred.set index (some type))[index]? = some (some type) :=
      List.getElem?_set_self bound
    refine ⟨List.forall_mem_append.mpr ⟨fun p member => ?_, ?_⟩, fun other t filled => ?_⟩
    · obtain ⟨t, filled, same⟩ := holds.agrees p member
      refine ⟨t, ?_, same⟩
      rw [List.getElem?_set_ne, filled]
      rintro rfl
      cases empty.symm.trans filled
    · exact List.forall_mem_singleton.mpr ⟨type, own, ClosedType.beq_refl type⟩
    · rw [List.mem_append, List.mem_singleton]
      by_cases same : index = other
      · subst same
        cases own.symm.trans filled
        exact .inr rfl
      · rw [List.getElem?_set_ne same] at filled
        exact .inl (holds.proposed other t filled)
  · next present filled =>
    split at assigned
    · next same =>
      cases assigned
      exact ⟨List.forall_mem_append.mpr
        ⟨holds.agrees, List.forall_mem_singleton.mpr ⟨present, filled, same⟩⟩,
        fun other t filled => List.mem_append_left _ (holds.proposed other t filled)⟩
    · cases assigned

/-- A proposal is refused if there is no such parameter or another proposal for it differs. -/
theorem Inferred.Holds.refuses {index : Nat} {type : ClosedType} (holds : inferred.Holds ps)
    (refused : inferred.assign index type = none) :
    inferred.length ≤ index ∨ ∃ other, (index, other) ∈ ps ∧ (other == type) = false := by
  unfold Inferred.assign at refused
  split at refused
  · next outside => exact .inl (List.getElem?_eq_none_iff.mp outside)
  · cases refused
  · next present filled =>
    split at refused
    · cases refused
    · next differs =>
      exact .inr ⟨present, holds.proposed index present filled, Bool.not_eq_true _ ▸ differs⟩

/-- Proposals that are all taken agree with the slots, of which there are as many as before. -/
theorem Inferred.Holds.assignAll (holds : inferred.Holds ps)
    (assigned : inferred.assignAll qs = some inferred') :
    inferred'.Holds (ps ++ qs) ∧ inferred'.length = inferred.length := by
  induction qs generalizing inferred ps with
  | nil =>
    cases assigned
    rw [List.append_nil]
    exact ⟨holds, rfl⟩
  | cons q qs ih =>
    obtain ⟨next, one, further⟩ := Option.bind_eq_some_iff.mp assigned
    obtain ⟨all, length⟩ := ih (holds.assign one) further
    rw [List.append_assoc, List.singleton_append] at all
    exact ⟨all, length.trans (assign_length one)⟩

theorem Inferred.Holds.consistent (holds : inferred.Holds ps) : Consistent inferred.length ps := by
  refine ⟨fun p member => ?_, fun p member q member' same => ?_⟩
  · obtain ⟨t, filled, -⟩ := holds.agrees p member
    exact (List.getElem?_eq_some_iff.mp filled).1
  · obtain ⟨t, filled, agrees⟩ := holds.agrees p member
    obtain ⟨t', filled', agrees'⟩ := holds.agrees q member'
    rw [same] at filled
    cases filled.symm.trans filled'
    exact ClosedType.beq_trans (ClosedType.beq_symm agrees) agrees'

/-- Consistent proposals are all taken. -/
theorem Inferred.Holds.takes (holds : inferred.Holds ps)
    (consistent : Consistent inferred.length (ps ++ qs)) :
    ∃ inferred', inferred.assignAll qs = some inferred' := by
  induction qs generalizing inferred ps with
  | nil => exact ⟨inferred, rfl⟩
  | cons q qs ih =>
    have member : q ∈ ps ++ q :: qs := by simp
    -- what was taken before is among the proposals, so a refusal contradicts their consistency
    cases assigned : inferred.assign q.1 q.2 with
    | none =>
      obtain outside | ⟨other, before, differs⟩ := holds.refuses assigned
      · exact absurd (consistent.1 q member) (Nat.not_lt.mpr outside)
      · have same : (other == q.2) = true :=
          consistent.2 _ (List.mem_append_left _ before) q member rfl
        cases differs.symm.trans same
    | some next =>
      rw [← assign_length assigned, ← List.singleton_append, ← List.append_assoc] at consistent
      obtain ⟨inferred', all⟩ := ih (holds.assign assigned) consistent
      exact ⟨inferred', Option.bind_eq_some_iff.mpr ⟨next, assigned, all⟩⟩

end Slots

/-- Where every slot is filled, the list of what is in them is answered. -/
theorem exists_mapM_id {α : Type} {slots : List (Option α)} (filled : ∀ o ∈ slots, o.isSome) :
    ∃ v, slots.mapM id = some v := by
  induction slots with
  | nil => exact ⟨[], rfl⟩
  | cons slot slots ih =>
    rw [List.forall_mem_cons] at filled
    obtain ⟨x, rfl⟩ := Option.isSome_iff_exists.mp filled.1
    obtain ⟨v, rest⟩ := ih filled.2
    exact ⟨x :: v, by rw [List.mapM_cons, rest]; rfl⟩

section Results
variable {m : Method} {args : List Term} {v w : List ClosedType} {P : Nat → ClosedType → Prop}

/-- No slot is filled before the first proposal. -/
theorem empty_holds (names : List String) :
    Inferred.Holds (names.map fun _ => none) [] := by
  refine ⟨nofun, fun index t filled => ?_⟩
  rw [List.getElem?_map] at filled
  cases name : names[index]? <;> simp [name] at filled

theorem inferTypeArgs_eq : inferTypeArgs m args =
    (Inferred.assignAll (m.genericParams.map fun _ => none) (allProposals m.params args)).bind
      (·.mapM id) := by
  rw [inferTypeArgs, matchParameters_eq]
  rfl

/-- Exactly one type is proposed for each parameter that there is, and none for any other. -/
def ProposesOne (count : Nat) (P : Nat → ClosedType → Prop) : Prop :=
  (∀ index type, P index type → index < count) ∧
    ∀ index < count, ∃ type, P index type ∧ ∀ other, P index other → (type == other) = true

/-- The list holds for each index what is proposed for it. -/
structure Matching (v : List ClosedType) (P : Nat → ClosedType → Prop) : Prop where
  proposed : ∀ index type, v[index]? = some type → P index type
  only : ∀ index type, P index type → ∃ own, v[index]? = some own ∧ (own == type) = true

theorem Matching.length_le (matching : Matching v P) (others : Matching w P) :
    v.length ≤ w.length := by
  by_contra longer
  have bound : w.length < v.length := Nat.lt_of_not_le longer
  obtain ⟨own, found, -⟩ := others.only _ _ (matching.proposed _ _ (List.getElem?_eq_getElem bound))
  exact absurd (List.getElem?_eq_some_iff.mp found).1 (Nat.lt_irrefl _)

theorem Matching.unique (matching : Matching v P) (others : Matching w P) : (v == w) = true := by
  have length : v.length = w.length :=
    Nat.le_antisymm (matching.length_le others) (others.length_le matching)
  refine ClosedType.beq_of_getElem? length fun index t u own other => ?_
  obtain ⟨own', found, same⟩ := matching.only index u (others.proposed index u other)
  cases own.symm.trans found
  exact same

theorem Matching.proposesOne (matching : Matching v P) : ProposesOne v.length P := by
  refine ⟨fun index type proposed => ?_, fun index bound => ?_⟩
  · obtain ⟨own, found, -⟩ := matching.only index type proposed
    exact (List.getElem?_eq_some_iff.mp found).1
  · have found : v[index]? = some v[index] := List.getElem?_eq_getElem bound
    refine ⟨v[index], matching.proposed index _ found, fun other proposed => ?_⟩
    obtain ⟨own, found', same⟩ := matching.only index other proposed
    cases found.symm.trans found'
    exact same

theorem ProposesOne.consistent {count : Nat} {ps : List (Nat × ClosedType)}
    (one : ProposesOne count P) (proposed : ∀ p ∈ ps, P p.1 p.2) : Consistent count ps := by
  refine ⟨fun p member => one.1 _ _ (proposed p member), fun p member q member' same => ?_⟩
  have first := proposed p member
  have second := same ▸ proposed q member'
  obtain ⟨type, -, only⟩ := one.2 p.1 (one.1 _ _ first)
  exact ClosedType.beq_trans (ClosedType.beq_symm (only _ first)) (only _ second)

theorem inferTypeArgs_matching (inferred : inferTypeArgs m args = some v) :
    v.length = m.genericParams.length ∧ Matching v (Proposed m.params args) := by
  rw [inferTypeArgs_eq] at inferred
  obtain ⟨slots, assigned, all⟩ := Option.bind_eq_some_iff.mp inferred
  obtain rfl : slots = v.map some := mapM_id_eq_some all
  obtain ⟨holds, length⟩ := (empty_holds _).assignAll assigned
  rw [List.nil_append] at holds
  refine ⟨by simpa using length, fun index type own => ?_, fun index type proposed => ?_⟩
  · exact mem_allProposals.mp (holds.proposed index type (by simp [own]))
  · obtain ⟨own, filled, same⟩ := holds.agrees _ (mem_allProposals.mpr proposed)
    rw [List.getElem?_map, Option.map_eq_some_iff] at filled
    obtain ⟨_, found, ⟨⟩⟩ := filled
    exact ⟨own, found, same⟩

theorem exists_inferTypeArgs_iff : (∃ v, inferTypeArgs m args = some v) ↔
    ProposesOne m.genericParams.length (Proposed m.params args) := by
  constructor
  · rintro ⟨v, inferred⟩
    obtain ⟨length, matching⟩ := inferTypeArgs_matching inferred
    exact length ▸ matching.proposesOne
  · intro one
    have empty := empty_holds m.genericParams
    have consistent : Consistent (m.genericParams.map fun _ => (none : Option ClosedType)).length
        ([] ++ allProposals m.params args) := by
      rw [List.length_map, List.nil_append]
      exact one.consistent fun p => mem_allProposals.mp
    obtain ⟨slots, assigned⟩ := empty.takes consistent
    obtain ⟨holds, length⟩ := empty.assignAll assigned
    rw [List.length_map] at length
    have filled : ∀ o ∈ slots, o.isSome := by
      intro o member
      obtain ⟨index, bound, rfl⟩ := List.mem_iff_getElem.mp member
      obtain ⟨type, proposed, -⟩ := one.2 index (length ▸ bound)
      obtain ⟨own, found, -⟩ := holds.agrees _ (mem_allProposals.mpr proposed)
      rw [List.getElem?_eq_getElem bound] at found
      rw [Option.some.inj found]
      rfl
    obtain ⟨v, all⟩ := exists_mapM_id filled
    exact ⟨v, by rw [inferTypeArgs_eq, assigned]; exact all⟩

/-- What is inferred depends on what is proposed alone. -/
theorem inferTypeArgs_congr {m' : Method} {args' : List Term}
    (count : m'.genericParams.length = m.genericParams.length)
    (same : Proposed m'.params args' = Proposed m.params args) :
    (inferTypeArgs m' args' = none ∧ inferTypeArgs m args = none) ∨
      ∃ v w, inferTypeArgs m' args' = some v ∧ inferTypeArgs m args = some w ∧
        Matching v (Proposed m.params args) ∧ Matching w (Proposed m.params args) := by
  have both := @exists_inferTypeArgs_iff m' args'
  rw [count, same, ← exists_inferTypeArgs_iff] at both
  cases inferred : inferTypeArgs m args with
  | none =>
    refine .inl ⟨?_, rfl⟩
    simpa [inferred, Option.eq_none_iff_forall_ne_some] using both
  | some w =>
    obtain ⟨v, inferred'⟩ := both.mpr ⟨w, inferred⟩
    exact .inr ⟨v, w, inferred', rfl, same ▸ (inferTypeArgs_matching inferred').2,
      (inferTypeArgs_matching inferred).2⟩

theorem proposed_perm {pairs : List (Parameter × Term)}
    (reordered : pairs.Perm (m.params.zip args)) :
    Proposed (pairs.map (·.1)) (pairs.map (·.2)) = Proposed m.params args := by
  have zipped : (pairs.map (·.1)).zip (pairs.map (·.2)) = pairs := (List.zip_of_prod rfl rfl).symm
  funext index type
  simp only [Proposed, zipped, reordered.mem_iff]

section Snapshots
variable {s : Snapshot}

theorem Places.wellFormed {signature : Signature} {actual type : ClosedType} {index : Nat}
    (places : Places signature actual index type) (wellFormed : s.WellFormed actual) :
    s.WellFormed type := by
  induction places with
  | parameter => exact wellFormed
  | element _ ih =>
    cases wellFormed with
    | array inner => exact ih inner
  | argument _ given _ ih =>
    cases wellFormed with
    | named _ _ each => exact ih (each _ (List.mem_of_getElem? given))

theorem Proposed.wellFormed {params : List Parameter} {index : Nat} {type : ClosedType}
    (proposed : Proposed params args index type)
    (wellFormed : ∀ arg ∈ args, ∀ actual ∈ arg.type?, s.WellFormed actual) : s.WellFormed type := by
  obtain ⟨pair, member, actual, typed, places⟩ := proposed
  exact places.wellFormed (wellFormed pair.2 (List.of_mem_zip member).2 actual typed)

/-- What is proposed of types of one snapshot is in the list itself. -/
theorem Matching.getElem?_iff (matching : Matching v (Proposed m.params args))
    (wellFormed : ∀ arg ∈ args, ∀ actual ∈ arg.type?, s.WellFormed actual) {index : Nat}
    {type : ClosedType} : v[index]? = some type ↔ Proposed m.params args index type := by
  refine ⟨matching.proposed index type, fun proposed => ?_⟩
  obtain ⟨own, found, same⟩ := matching.only index type proposed
  have held := (matching.proposed index own found).wellFormed wellFormed
  rw [found, held.eq_of_same type (proposed.wellFormed wellFormed) same]

end Snapshots

/-- Type arguments are inferred just if the typed arguments propose exactly one type for each
parameter of the method and none for any other, and then it is these types that are inferred. So it
makes no difference in which order the parameters are compared with their arguments. Among the types
of one snapshot those that are the same are equal, and so are then the inferred ones. -/
theorem inferTypeArgs_unique (m : Method) (args : List Term) :
    ((∃ v, inferTypeArgs m args = some v) ↔
      ProposesOne m.genericParams.length (Proposed m.params args)) ∧
    (∀ v, inferTypeArgs m args = some v →
      v.length = m.genericParams.length ∧ Matching v (Proposed m.params args)) ∧
    (∀ pairs : List (Parameter × Term), pairs.Perm (m.params.zip args) →
      (inferTypeArgs { m with params := pairs.map (·.1) } (pairs.map (·.2)) ==
        inferTypeArgs m args) = true) ∧
    ∀ s : Snapshot, (∀ arg ∈ args, ∀ actual ∈ arg.type?, s.WellFormed actual) →
      (∀ v, inferTypeArgs m args = some v →
        ∀ index type, v[index]? = some type ↔ Proposed m.params args index type) ∧
      ∀ pairs : List (Parameter × Term), pairs.Perm (m.params.zip args) →
        inferTypeArgs { m with params := pairs.map (·.1) } (pairs.map (·.2)) =
          inferTypeArgs m args := by
  have reorder {pairs : List (Parameter × Term)} (reordered : pairs.Perm (m.params.zip args)) :=
    @inferTypeArgs_congr m args { m with params := pairs.map (·.1) } _ rfl
      (proposed_perm reordered)
  refine ⟨exists_inferTypeArgs_iff, fun v => inferTypeArgs_matching, fun pairs reordered => ?_,
    fun s wellFormed => ⟨fun v inferred index type => ?_, fun pairs reordered => ?_⟩⟩
  · obtain ⟨fails, fails'⟩ | ⟨v, w, inferred, inferred', matching, matching'⟩ := reorder reordered
    · rw [fails, fails']
      rfl
    · rw [inferred, inferred']
      exact matching.unique matching'
  · exact (inferTypeArgs_matching inferred).2.getElem?_iff wellFormed
  · obtain ⟨fails, fails'⟩ | ⟨v, w, inferred, inferred', matching, matching'⟩ := reorder reordered
    · rw [fails, fails']
    · rw [inferred, inferred']
      refine congrArg some (List.ext_getElem? fun index => Option.ext fun type => ?_)
      rw [matching.getElem?_iff wellFormed, matching'.getElem?_iff wellFormed]

end Results

section Instance
open Sample

/-- The method `Fill<K, V>(V[] values, K key, V other)`. -/
def fill : Method where
  name := "Fill"
  isStatic := true
  genericParams := ["K", "V"]
  params := [⟨"values", .array (.methodParameter 1) 1, false⟩,
    ⟨"key", .methodParameter 0, false⟩, ⟨"other", .methodParameter 1, false⟩]
  returns := none

/-- Strings, a number and the null literal, which has no type. -/
def fillArgs : List Term :=
  [.localVar 0 (.array (type .string) 1), .localVar 1 (type .int32), .null]

theorem fillArgs_wellFormed : ∀ arg ∈ fillArgs, ∀ actual ∈ arg.type?,
    (Snapshot.empty.add core).WellFormed actual := by
  have unique : (Snapshot.empty.add core).TokensUnique := by
    have all : (Snapshot.empty.add core).modules.all fun m =>
        decide (m.types.map (·.token)).Nodup := by
      decide +kernel
    simpa [Snapshot.TokensUnique] using all
  have stored (p : Primitive) := (holds_type p).wellFormed unique
  refine List.forall_mem_cons.mpr ⟨fun _ values => ?_, List.forall_mem_cons.mpr
    ⟨fun _ key => ?_, List.forall_mem_singleton.mpr fun _ none => ?_⟩⟩
  · cases values
    exact .array (stored .string)
  · cases key
    exact stored .int32
  · cases none

/-- From the last argument to the first the same types are inferred. -/
theorem fill_inferred :
    inferTypeArgs fill fillArgs = some [type .int32, type .string] ∧
    inferTypeArgs { fill with params := fill.params.reverse } fillArgs.reverse =
      some [type .int32, type .string] := by
  have inferred : inferTypeArgs fill fillArgs = some [type .int32, type .string] := rfl
  have reordered := ((inferTypeArgs_unique fill fillArgs).2.2.2 _ fillArgs_wellFormed).2 _
    (List.reverse_perm _)
  exact ⟨inferred, reordered.trans inferred⟩

end Instance

end DebugExpr.Bound
