import DebugExpr.Proofs.ResolvedNames

/-! Which module a type is taken from where several of them satisfy the stated assembly. They are
sorted by whether they have the stated version, and otherwise stay in the order in which they were
loaded. One that does not define the type is passed over, so that of those that do, the earliest one
of the stated version is taken, and the earliest one of all if none has it. -/
namespace DebugExpr
open Metadata

section Parts
variable {α : Type} {xs : List α} {first : α → Bool}

theorem eq_parts (sorted : xs.Pairwise fun x y => first x || !first y) :
    xs = xs.filter first ++ xs.filter (!first ·) := by
  induction xs with
  | nil => rfl
  | cons x rest ih =>
    rw [List.pairwise_cons] at sorted
    cases front : first x with
    | true => simpa [front] using ih sorted.2
    | false =>
      have noneFirst : rest.filter first = [] := by simpa [front] using sorted.1
      have allOthers : rest.filter (!first ·) = rest := by simpa [front] using sorted.1
      simp [front, noneFirst, allOthers]

/-- A stable sort leaves elements that it does not tell apart in their order. -/
theorem filter_mergeSort {le : α → α → Bool} (p : α → Bool) (xs : List α)
    (trans : ∀ x y z, le x y = true → le y z = true → le x z = true)
    (total : ∀ x y, (le x y || le y x) = true)
    (tied : ∀ x y, p x = true → p y = true → le x y = true) :
    (xs.mergeSort le).filter p = xs.filter p := by
  have kept : (xs.filter p).Sublist (xs.mergeSort le) := by
    refine List.sublist_mergeSort trans total ?_ List.filter_sublist
    rw [List.pairwise_filter]
    exact List.pairwise_of_forall tied
  have long : ((xs.filter p).filter p).length = ((xs.mergeSort le).filter p).length := by
    simpa using ((List.mergeSort_perm xs le).filter p).length_eq.symm
  rw [← (kept.filter p).eq_of_length long, List.filter_filter]
  simp

/-- A stable sort by a yes or no puts the list into two parts. -/
theorem mergeSort_eq_parts (first : α → Bool) (xs : List α) :
    xs.mergeSort (fun x y => first x || !first y) = xs.filter first ++ xs.filter (!first ·) := by
  have trans (x y z : α) (before : (first x || !first y) = true)
      (after : (first y || !first z) = true) : (first x || !first z) = true := by grind
  have total (x y : α) : ((first x || !first y) || (first y || !first x)) = true := by grind
  rw [eq_parts (List.pairwise_mergeSort trans total xs),
    filter_mergeSort first xs trans total (by grind),
    filter_mergeSort (!first ·) xs trans total (by grind)]

/-- The first element with a property in one of the parts, or else the first one of all. -/
theorem find?_parts (p first : α → Bool) (xs : List α) :
    (xs.filter first ++ xs.filter (!first ·)).find? p =
      (xs.find? fun x => p x && first x).or (xs.find? p) := by
  induction xs with
  | nil => rfl
  | cons x rest ih =>
    rw [List.find?_append] at ih ⊢
    cases holds : p x with
    | false => cases front : first x <;> simpa [holds, front] using ih
    | true =>
      cases front : first x with
      | true => simp [holds, front]
      | false => simp [holds, front, List.find?_filter, Bool.and_comm]

end Parts

namespace QualifiedName.Resolver
variable {r : Resolver} {t : QualifiedName} {reference : Assembly.Reference} {fullName : String}
  {m m' : Module} {type : ClosedType}

/-- The module satisfies the reference and defines the type. -/
def Offers (r : Resolver) (reference : Assembly.Reference) (fullName : String) (m : Module) :
    Prop :=
  r.matching.accepts reference m.identity = true ∧ (m.typeNamed? fullName).isSome = true

instance : DecidablePred (r.Offers reference fullName) :=
  fun _ => inferInstanceAs (Decidable (_ ∧ _))

/-- The module has the version that the reference states. -/
def HasVersion (reference : Assembly.Reference) (m : Module) : Prop :=
  reference.version = some m.identity.version

instance : DecidablePred (HasVersion reference) :=
  fun _ => inferInstanceAs (Decidable (_ = _))

section Earliest
variable {holds : Module → Prop} {modules : List Module}

/-- No module before this one has the property, which it has itself. -/
def IsEarliest (holds : Module → Prop) (modules : List Module) (m : Module) : Prop :=
  ∃ before after, modules = before ++ m :: after ∧ holds m ∧ ∀ other ∈ before, ¬holds other

theorem find?_eq_some_iff_isEarliest [DecidablePred holds] :
    modules.find? (fun m => decide (holds m)) = some m ↔ IsEarliest holds modules m := by
  simp only [List.find?_eq_some_iff_append, decide_eq_true_eq, Bool.not_eq_true',
    decide_eq_false_iff_not, IsEarliest]
  constructor
  · rintro ⟨has, before, after, split, others⟩
    exact ⟨before, after, split, has, others⟩
  · rintro ⟨before, after, split, has, others⟩
    exact ⟨has, before, after, split, others⟩

end Earliest

/-- The module from which a type is taken. -/
inductive Preferred (r : Resolver) (reference : Assembly.Reference) (fullName : String)
    (m : Module) : Prop
  | sameVersion (earliest : IsEarliest
      (fun m => r.Offers reference fullName m ∧ HasVersion reference m) r.snapshot.modules m)
  | anyVersion
    (none : ∀ m ∈ r.snapshot.modules, r.Offers reference fullName m → ¬HasVersion reference m)
    (earliest : IsEarliest (r.Offers reference fullName) r.snapshot.modules m)

/-- Finds the module from which a type is taken. -/
def preferred? (r : Resolver) (reference : Assembly.Reference) (fullName : String) :
    Option Module :=
  (r.snapshot.modules.find? fun m => r.Offers reference fullName m ∧ HasVersion reference m).or
    (r.snapshot.modules.find? fun m => r.Offers reference fullName m)

theorem preferred?_eq_some :
    r.preferred? reference fullName = some m ↔ r.Preferred reference fullName m := by
  rw [preferred?, Option.or_eq_some_iff, find?_eq_some_iff_isEarliest, find?_eq_some_iff_isEarliest,
    List.find?_eq_none]
  simp only [decide_eq_true_eq, not_and]
  constructor
  · rintro (earliest | ⟨none, earliest⟩)
    · exact .sameVersion earliest
    · exact .anyVersion none earliest
  · rintro (earliest | ⟨none, earliest⟩)
    · exact .inl earliest
    · exact .inr ⟨none, earliest⟩

theorem Preferred.unique (preferred : r.Preferred reference fullName m)
    (preferred' : r.Preferred reference fullName m') : m = m' := by
  rw [← preferred?_eq_some] at preferred preferred'
  exact Option.some.inj (preferred.symm.trans preferred')

theorem exists_preferred (offered : ∃ m ∈ r.snapshot.modules, r.Offers reference fullName m) :
    ∃ m, r.Preferred reference fullName m := by
  obtain ⟨m, loaded, offers⟩ := offered
  have found : (r.preferred? reference fullName).isSome := by
    rw [preferred?, Option.isSome_or, Bool.or_eq_true, List.find?_isSome, List.find?_isSome]
    exact .inr ⟨m, loaded, decide_eq_true offers⟩
  obtain ⟨m, found⟩ := Option.isSome_iff_exists.mp found
  exact ⟨m, preferred?_eq_some.mp found⟩

theorem Preferred.offers (preferred : r.Preferred reference fullName m) :
    r.Offers reference fullName m := by
  obtain ⟨-, -, -, ⟨offers, -⟩, -⟩ | ⟨-, -, -, -, offers, -⟩ := preferred
  · exact offers
  · exact offers

/-- The modules that satisfy the reference, in load order. -/
def accepted (r : Resolver) (reference : Assembly.Reference) : List Module :=
  r.snapshot.modules.filter fun m => r.matching.accepts reference m.identity

/-- The modules that satisfy a reference are searched in load order, but for those that have the
stated version, which come first. -/
theorem candidates_sorted (someone : r.accepted reference ≠ []) :
    r.candidates (.assembly reference) = .ok ((r.accepted reference).mergeSort fun m m' =>
      decide (HasVersion reference m) || !decide (HasVersion reference m')) := by
  rw [accepted] at someone
  rw [mergeSort_eq_parts (fun m => decide (HasVersion reference m)), candidates]
  split
  · rename_i nobody
    exact absurd nobody someone
  · have same (m : Module) : (reference.version == some m.identity.version) =
        decide (HasVersion reference m) := by
      rw [Bool.eq_iff_iff, beq_iff_eq, decide_eq_true_eq, HasVersion]
    simp only [accepted, same, List.partition_eq_filter_filter, Function.comp_def]

/-- The search for a definition ends at the first module that has one. -/
theorem findSome?_typeIn?_eq (fullName : String) (modules : List Module) :
    modules.findSome? (Snapshot.typeIn? fullName) =
      (modules.find? fun m => (m.typeNamed? fullName).isSome).bind (Snapshot.typeIn? fullName) := by
  induction modules with
  | nil => rfl
  | cons m rest ih =>
    rw [List.findSome?_cons, List.find?_cons, Snapshot.typeIn?]
    cases named : m.typeNamed? fullName with
    | some d => simp [Snapshot.typeIn?, named]
    | none => exact ih

theorem search_candidates (offered : ∃ m ∈ r.snapshot.modules, r.Offers reference fullName m) :
    ∃ modules, r.candidates (.assembly reference) = .ok modules ∧
      modules.findSome? (Snapshot.typeIn? fullName) =
        (r.preferred? reference fullName).bind (Snapshot.typeIn? fullName) := by
  obtain ⟨m, loaded, accepts, defines⟩ := offered
  have someone : r.accepted reference ≠ [] :=
    List.ne_nil_of_mem (List.mem_filter.mpr ⟨loaded, accepts⟩)
  refine ⟨_, candidates_sorted someone, ?_⟩
  rw [findSome?_typeIn?_eq, mergeSort_eq_parts (fun m => decide (HasVersion reference m)),
    find?_parts, preferred?]
  simp only [accepted, List.find?_filter, Offers, Bool.and_eq_true, decide_eq_true_eq, and_assoc]
  rfl

/-- Where some module that satisfies the stated assembly defines the type, it is taken from the
preferred one of them, whatever other modules are loaded; it is not resolved only if the name itself
is not supported or its arguments are not resolved. -/
theorem resolve_from_preferred (r : Resolver) (t : QualifiedName) {reference : Assembly.Reference}
    (stated : t.origin = .assembly reference)
    (offered : ∃ m ∈ r.snapshot.modules, r.Offers reference t.fullName m) :
    ∃ m d, (∀ m', r.Preferred reference t.fullName m' ↔ m' = m) ∧
      m.typeNamed? t.fullName = some d ∧
      ∀ type, r.resolve t = .ok type ↔
        0 < r.maxDepth ∧ t.isIndirect = false ∧ d.genericParams.length = t.args.length ∧
        ∃ args, Resolution.all (t.args.map (r.resolveWithin (r.maxDepth - 1))) = .ok args ∧
          type = applySuffixes t.suffixes (.named m.id d args) := by
  obtain ⟨m, preferred⟩ := exists_preferred offered
  obtain ⟨d, defines⟩ := Option.isSome_iff_exists.mp preferred.offers.2
  have only (m' : Module) : r.Preferred reference t.fullName m' ↔ m' = m :=
    ⟨fun preferred' => preferred'.unique preferred, fun same => same ▸ preferred⟩
  refine ⟨m, d, only, defines, fun type => ?_⟩
  obtain ⟨modules, searched, found⟩ := search_candidates offered
  rw [preferred?_eq_some.mpr preferred, Option.bind_some, Snapshot.typeIn?, defines] at found
  have located (home : ModuleId) (d' : TypeDefinition) : r.locate t = .ok (home, d') ↔
      (m.id, d) = (home, d') ∧ d'.genericParams.length = t.args.length := by
    simp only [locate_iff, stated, searched, found, Except.ok.injEq, exists_eq_left',
      Option.map_some, Option.some.injEq]
  cases levels : r.maxDepth with
  | zero => simp [resolve, levels, resolveWithin]
  | succ left =>
    rw [resolve, levels, resolveWithin_eq_ok]
    simp only [located, Nat.succ_pos, true_and, Nat.add_sub_cancel]
    constructor
    · rintro ⟨direct, home, d', args, ⟨⟨⟩, counted⟩, resolved, made⟩
      exact ⟨direct, counted, args, resolved, made⟩
    · rintro ⟨direct, counted, args, resolved, made⟩
      exact ⟨direct, m.id, d, args, ⟨rfl, counted⟩, resolved, made⟩

section Instance

/-- `class T { }`. -/
def duplicate : TypeDefinition :=
  TypeDeclaration.define { fullName := "T", kind := .classType } (.typeDefinition 1)

/-- A version of the assembly `D`. -/
def edition (major : UInt16) (types : List TypeDefinition) : Module :=
  .ofDefinitions ⟨"D", ⟨major, 0, 0, 0⟩, none, none⟩ types

/-- Four assemblies of one name are loaded. The first one of version 2 does not define the type. -/
def editions : Resolver where
  snapshot := (((Snapshot.empty.add (edition 1 [duplicate])).add (edition 2 [])).add
    (edition 2 [duplicate])).add (edition 2 [duplicate])

/-- The second version of `D`. -/
def secondEdition : Assembly.Reference :=
  { Assembly.Reference.named "D" with version := some ⟨2, 0, 0, 0⟩ }

/-- The third module is taken: it is the first one that has both the version and the type. -/
theorem third_preferred : (∃ m ∈ editions.snapshot.modules, editions.Offers secondEdition "T" m) ∧
    editions.resolve ⟨[⟨"T", 0⟩], [], [], .assembly secondEdition⟩ =
      .ok (.named ⟨2⟩ duplicate []) := by
  have offered : ∃ m ∈ editions.snapshot.modules, editions.Offers secondEdition "T" m :=
    ⟨_, List.mem_cons_self, rfl, rfl⟩
  obtain ⟨m, d, chosen, defines, resolves⟩ := resolve_from_preferred editions
    ⟨[⟨"T", 0⟩], [], [], .assembly secondEdition⟩ rfl offered
  have third : editions.Preferred secondEdition "T" { edition 2 [duplicate] with id := ⟨2⟩ } :=
    .sameVersion ⟨[{ edition 1 [duplicate] with id := ⟨0⟩ }, { edition 2 [] with id := ⟨1⟩ }],
      [{ edition 2 [duplicate] with id := ⟨3⟩ }], rfl, ⟨⟨rfl, rfl⟩, rfl⟩, by decide⟩
  obtain rfl := (chosen _).mp third
  obtain rfl : duplicate = d := Option.some.inj defines
  exact ⟨offered, (resolves _).mpr ⟨by decide, rfl, rfl, [], rfl, rfl⟩⟩

end Instance

end QualifiedName.Resolver

end DebugExpr
