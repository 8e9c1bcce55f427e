import DebugExpr.Proofs.NameSearch
import DebugExpr.Proofs.SampleScope

/-! Displays of resolved types, resolved again. A display is read under the limit under which the
type was read, and means the type in which the ranks of arrays of arrays are turned around. It does
so where optional values are neither arrays nor optional themselves, and where no name needs an at
sign. -/
namespace DebugExpr

namespace Metadata
open Source

namespace ClosedType

mutual

/-- The named types of which a type is made. -/
def components : ClosedType → List ClosedType
  | .named home d args => .named home d args :: componentsAll args
  | .array element _ => components element

def componentsAll : List ClosedType → List ClosedType
  | [] => []
  | t :: rest => components t ++ componentsAll rest

end

theorem componentsAll_eq (ts : List ClosedType) : componentsAll ts = ts.flatMap components := by
  induction ts with
  | nil => rfl
  | cons t rest ih => rw [componentsAll, ih, List.flatMap_cons]

mutual

/-- The ranks of all arrays of arrays, inside arrays of the given ranks. -/
def rankStacksUnder : List Nat → ClosedType → List (List Nat)
  | ranks, .named _ _ args => ranks :: rankStacksAll args
  | ranks, .array element rank => rankStacksUnder (ranks ++ [rank]) element

def rankStacksAll : List ClosedType → List (List Nat)
  | [] => []
  | t :: rest => rankStacksUnder [] t ++ rankStacksAll rest

end

/-- The ranks of all arrays of arrays, of each the outermost first. -/
def rankStacks (t : ClosedType) : List (List Nat) :=
  t.rankStacksUnder []

mutual

theorem turnedUnder_eq : (t : ClosedType) → (ranks : List Nat) →
    (∀ stack ∈ t.rankStacksUnder ranks, stack.reverse = stack) →
    t.turnedUnder ranks = ranks.reverse.foldl .array t
  | .named home d args, ranks, even => by
    rw [rankStacksUnder, List.forall_mem_cons] at even
    rw [turnedUnder, turnedAll_eq args even.2, even.1]
  | .array element rank, ranks, even => by
    rw [turnedUnder, turnedUnder_eq element _ even, List.reverse_append, List.reverse_singleton,
      List.singleton_append, List.foldl_cons]

theorem turnedAll_eq : (ts : List ClosedType) →
    (∀ stack ∈ rankStacksAll ts, stack.reverse = stack) → turnedAll ts = ts
  | [], _ => rfl
  | t :: rest, even => by
    rw [rankStacksAll, List.forall_mem_append] at even
    rw [turnedAll, turnedUnder_eq t [] even.1, turnedAll_eq rest even.2, List.reverse_nil,
      List.foldl_nil]

end

/-- Nothing changes when the ranks are turned around that read the same from both ends. -/
theorem turned_eq {t : ClosedType} (even : ∀ stack ∈ t.rankStacks, stack.reverse = stack) :
    t.turned = t :=
  turnedUnder_eq t [] even

end ClosedType

namespace Snapshot

/-- The definitions that are displayed in a way of their own are those of the core library. -/
structure Marked (s : Snapshot) : Prop where
  builtIn : ∀ m ∈ s.modules, ∀ d ∈ m.types, ∀ p, d.primitive = some p →
    s.coreLibrary? = some m ∧ d.fullName = p.fullName
  optional : ∀ m ∈ s.modules, ∀ d ∈ m.types,
    (d.isNullable = true ↔ s.coreLibrary? = some m ∧ d.fullName = nullableName)

/-- A type of which every component is alone under its full name, and in which optional values are
neither arrays nor optional themselves. -/
structure Displays (s : Snapshot) (t : ClosedType) : Prop where
  once : ∀ c ∈ t.components, ∀ m ∈ s.modules, ∀ m' ∈ s.modules,
    (m.typeNamed? c.metadataName).isSome = true → (m'.typeNamed? c.metadataName).isSome = true →
    m.id = m'.id
  optional : ∀ c ∈ t.components, c.isNullable = true →
    ∀ arg ∈ c.args, arg.definition?.isSome = true ∧ arg.isNullable = false

end Snapshot

end Metadata

namespace Bound
open Metadata Source Text
variable {s : Scope} {t : ClosedType} {written : TypeExpr} {home : ModuleId} {d : TypeDefinition}
  {levels : Nat}

/-- The written type is read from its display within so many levels and means the type. -/
structure Scope.ReadsAs (s : Scope) (levels : Nat) (written : TypeExpr) (t : ClosedType) :
    Prop where
  readable : written.Readable
  unreserved : written.Unreserved
  shallow : written.depth ≤ levels
  resolves : s.resolveType written = .ok t

namespace Scope

theorem ReadsAs.array {rank : Nat} (positive : 0 < rank) (reads : s.ReadsAs levels written t) :
    s.ReadsAs levels (.array written rank) (.array t rank) where
  readable := .array positive reads.readable
  unreserved := reads.unreserved
  shallow := reads.shallow
  resolves := by
    rw [resolveType, reads.resolves]
    rfl

theorem ReadsAs.arrays {ranks : List Nat} (positive : ∀ rank ∈ ranks, 0 < rank)
    (reads : s.ReadsAs levels written t) :
    s.ReadsAs levels (ranks.foldl .array written) (ranks.foldl .array t) := by
  induction ranks generalizing written t with
  | nil => exact reads
  | cons rank ranks ih =>
    rw [List.forall_mem_cons] at positive
    exact ih positive.2 (reads.array positive.1)

theorem ReadsAs.mono {more : Nat} (reads : s.ReadsAs levels written t) (le : levels ≤ more) :
    s.ReadsAs more written t :=
  { reads with shallow := reads.shallow.trans le }

theorem resolveTypes_eq_ok {ts : List TypeExpr} {types : List ClosedType} :
    s.resolveTypes ts = .ok types ↔
      List.Forall₂ (fun t type => s.resolveType t = .ok type) ts types := by
  induction ts generalizing types with
  | nil => cases types <;> simp [resolveTypes]
  | cons t rest ih =>
    cases types with
    | nil => simp [resolveTypes]
    | cons type types => simp [resolveTypes, ih]

theorem exists_related {α β : Type} {R : α → β → Prop} {as : List α} {bs : List β}
    (each : List.Forall₂ R as bs) : ∀ b ∈ bs, ∃ a ∈ as, R a b := by
  induction each with
  | nil => exact nofun
  | cons own _ ih =>
    refine List.forall_mem_cons.mpr ⟨⟨_, List.mem_cons_self, own⟩, fun b member => ?_⟩
    obtain ⟨a, listed, related⟩ := ih b member
    exact ⟨a, List.mem_cons_of_mem _ listed, related⟩

/-- The arguments of all parts of a name, each of which some written argument means. -/
theorem resolveSegments_eq_ok {segments : List (String × List TypeExpr)} {types : List ClosedType}
    (resolves : s.resolveSegments segments = .ok types) :
    (segments.map (·.2.length)).sum = types.length ∧
      ∀ type ∈ types, ∃ segment ∈ segments, ∃ t ∈ segment.2, s.resolveType t = .ok type := by
  induction segments generalizing types with
  | nil =>
    cases resolves
    simp
  | cons segment rest ih =>
    rw [resolveSegments] at resolves
    obtain ⟨own, ownResolves, resolves⟩ := bind_eq_ok.mp resolves
    obtain ⟨further, furtherResolves, same⟩ := bind_eq_ok.mp resolves
    obtain rfl := Except.ok.inj same
    have each := resolveTypes_eq_ok.mp ownResolves
    obtain ⟨sum, inside⟩ := ih furtherResolves
    constructor
    · rw [List.map_cons, List.sum_cons, List.length_append, sum, each.length_eq]
    · intro type member
      rcases List.mem_append.mp member with first | later
      · obtain ⟨t, listed, resolved⟩ := exists_related each type first
        exact ⟨segment, List.mem_cons_self, t, listed, resolved⟩
      · obtain ⟨segment, listed, found⟩ := inside type later
        exact ⟨segment, List.mem_cons_of_mem _ listed, found⟩

section Regrouping
variable {α : Type} {counts : List (String × Nat)} {args : List α}

theorem regroup_counts (sum : (counts.map (·.2)).sum = args.length) :
    (regroup counts args).map (fun part => (part.1, part.2.length)) = counts := by
  induction counts generalizing args with
  | nil => rfl
  | cons part rest ih =>
    simp only [List.map_cons, List.sum_cons] at sum
    rw [regroup, List.map_cons, ih (by rw [List.length_drop]; omega), List.length_take,
      Nat.min_eq_left (by omega)]

theorem mem_regroup {part : String × List α} (member : part ∈ regroup counts args) :
    (∃ count, (part.1, count) ∈ counts) ∧ ∀ arg ∈ part.2, arg ∈ args := by
  induction counts generalizing args with
  | nil => cases member
  | cons first rest ih =>
    rcases List.mem_cons.mp member with rfl | later
    · exact ⟨⟨first.2, List.mem_cons_self⟩, fun arg inside => List.mem_of_mem_take inside⟩
    · obtain ⟨⟨count, listed⟩, inside⟩ := ih later
      exact ⟨⟨count, List.mem_cons_of_mem _ listed⟩,
        fun arg own => List.mem_of_mem_drop (inside arg own)⟩

/-- Arguments that are given to names resolve one after the other. -/
theorem resolveSegments_regroup {counts : List (String × Nat)} {args : List TypeExpr}
    {types : List ClosedType} (sum : (counts.map (·.2)).sum = args.length)
    (each : List.Forall₂ (fun t type => s.resolveType t = .ok type) args types) :
    s.resolveSegments (regroup counts args) = .ok types := by
  induction counts generalizing args types with
  | nil =>
    obtain rfl := List.length_eq_zero_iff.mp sum.symm
    cases each
    rfl
  | cons part rest ih =>
    simp only [List.map_cons, List.sum_cons] at sum
    have own := resolveTypes_eq_ok.mpr (List.forall₂_take part.2 each)
    have further := ih (by rw [List.length_drop]; omega) (List.forall₂_drop part.2 each)
    rw [regroup, resolveSegments, own, ok_bind, further, ok_bind, List.take_append_drop]
    rfl

end Regrouping

/-- A name with arguments is read where its arguments are, one level further down. -/
theorem readsAs_named {counts : List (String × Nat)} {fullName : String}
    {args : List TypeExpr} {types : List ClosedType}
    (found : s.findNamed? counts = some (fullName, home, d)) (nameable : Nameable counts)
    (plain : PlainPath counts) (sum : (counts.map (·.2)).sum = args.length)
    (params : d.genericParams.length = types.length)
    (each : List.Forall₂ (s.ReadsAs levels) args types) :
    s.ReadsAs (levels + 1) (.named false (regroup counts args)) (.named home d types) := by
  obtain ⟨reads, resolve⟩ :
      (∀ arg ∈ args, arg.Readable ∧ arg.Unreserved ∧ arg.depth ≤ levels) ∧
      List.Forall₂ (fun t type => s.resolveType t = .ok type) args types :=
    (List.forall₂_and_left _ _).mp <| each.imp fun _ _ reads =>
      ⟨⟨reads.readable, reads.unreserved, reads.shallow⟩, reads.resolves⟩
  have names : ∀ part ∈ regroup counts args,
      IsName part.1.toList ∧ isReserved part.1 = false := by
    intro part member
    obtain ⟨⟨count, listed⟩, -⟩ := mem_regroup member
    exact ⟨(nameable _ listed).1, plain.unreserved _ listed⟩
  have inside : ∀ part ∈ regroup counts args, ∀ arg ∈ part.2,
      arg.Readable ∧ arg.Unreserved ∧ arg.depth ≤ levels :=
    fun part member arg own => reads arg ((mem_regroup member).2 arg own)
  obtain ⟨space, outer, inner, split, -⟩ := findNamed?_eq_some found
  obtain ⟨first, rest, rfl⟩ := List.exists_cons_of_ne_nil (l := counts) (by simp [split])
  constructor
  · refine .named (List.cons_ne_nil _ _) (fun part member => (names part member).1) ?_
      fun part member arg own => (inside part member arg own).1
    rintro - part ⟨⟩
    exact plain.first first rfl
  · exact TypeExpr.unreserved_named.mpr ⟨fun part member => (names part member).2,
      fun part member arg own => (inside part member arg own).2.1⟩
  · exact TypeExpr.depth_named_le fun part member arg own => (inside part member arg own).2.2
  · rw [resolveType, resolveSegments_regroup sum resolve, ok_bind, regroup_counts sum, found]
    simp [params]

/-- The display of the type is read as a type, in arrays of any ranks, and that means the type with
the ranks turned around. -/
def Spelled (s : Scope) (levels : Nat) (t : ClosedType) : Prop :=
  ∀ ranks, (∀ rank ∈ ranks, 0 < rank) →
    s.ReadsAs levels (t.spellingUnder ranks) (t.turnedUnder ranks)

theorem Spelled.mono {more : Nat} (spelled : s.Spelled levels t) (le : levels ≤ more) :
    s.Spelled more t :=
  fun ranks positive => (spelled ranks positive).mono le

theorem Spelled.ofArray {rank : Nat} (spelled : s.Spelled levels t) (positive : 0 < rank) :
    s.Spelled levels (.array t rank) := by
  intro ranks all
  refine spelled (ranks ++ [rank]) (List.forall_mem_append.mpr ⟨all, ?_⟩)
  simpa using positive

section Arguments
variable {args : List ClosedType}

theorem readsAs_all (each : ∀ arg ∈ args, s.Spelled levels arg) :
    List.Forall₂ (s.ReadsAs levels) (ClosedType.spellingAll args) (ClosedType.turnedAll args) := by
  induction args with
  | nil => exact .nil
  | cons arg rest ih =>
    rw [List.forall_mem_cons] at each
    exact .cons (each.1 [] nofun) (ih each.2)

theorem length_turnedAll (args : List ClosedType) :
    (ClosedType.turnedAll args).length = args.length := by
  induction args with
  | nil => rfl
  | cons arg rest ih => rw [ClosedType.turnedAll, List.length_cons, List.length_cons, ih]

theorem length_spellingAll (args : List ClosedType) :
    (ClosedType.spellingAll args).length = args.length := by
  induction args with
  | nil => rfl
  | cons arg rest ih => rw [ClosedType.spellingAll, List.length_cons, List.length_cons, ih]

/-- It is enough to read the display of a named type outside of all arrays. -/
theorem Spelled.ofNamed
    (reads : s.ReadsAs levels (d.spelling (ClosedType.spellingAll args))
      (.named home d (ClosedType.turnedAll args))) : s.Spelled levels (.named home d args) := by
  intro ranks positive
  rw [ClosedType.spellingUnder, ClosedType.turnedUnder]
  exact reads.arrays positive

end Arguments

section Definitions
variable {args : List ClosedType} {fullName : String}

/-- A definition that was found under the names that its display shows. -/
theorem spelled_found (found : s.findNamed? d.displayedPath = some (fullName, home, d))
    (nameable : Nameable d.displayedPath) (plain : PlainPath d.displayedPath)
    (sum : (d.displayedPath.map (·.2)).sum = args.length)
    (params : d.genericParams.length = args.length) (unmarked : d.primitive = none)
    (required : d.isNullable = false) (each : ∀ arg ∈ args, s.Spelled levels arg) :
    s.Spelled (levels + 1) (.named home d args) := by
  have reads := readsAs_named found nameable plain (sum.trans (length_spellingAll args).symm)
    (params.trans (length_turnedAll args).symm) (readsAs_all each)
  exact .ofNamed (d.spelling_plain unmarked required ▸ reads)

theorem isHead_spelling (single : t.definition?.isSome = true) (required : t.isNullable = false) :
    t.spelling.isHead = true := by
  cases t with
  | array => cases single
  | named home d args =>
    have required : d.isNullable = false := by
      simpa [ClosedType.isNullable, ClosedType.definition?] using required
    rw [ClosedType.spelling, ClosedType.spellingUnder, List.foldl_nil]
    cases marked : d.primitive with
    | none =>
      rw [TypeDefinition.spelling_plain marked required]
      rfl
    | some p =>
      rw [TypeDefinition.spelling_builtIn marked]
      split <;> rfl

/-- An optional value is displayed by a question mark behind a type without marks. -/
theorem spelled_optional {arg : ClosedType}
    (resolves : s.snapshot.coreType nullableName [arg] = .ok (.named home d [arg]))
    (unmarked : d.primitive = none) (nullable : d.isNullable = true)
    (spelled : s.Spelled levels arg) (single : arg.definition?.isSome = true)
    (required : arg.isNullable = false) : s.Spelled levels (.named home d [arg]) := by
  have inner : s.ReadsAs levels arg.spelling arg.turned := spelled [] nofun
  have wrapped : s.snapshot.coreType nullableName [arg.turned] =
      .ok (.named home d [arg.turned]) := by
    obtain ⟨core, d', found, named, params, same⟩ := coreType_eq_ok.mp resolves
    obtain ⟨rfl, rfl⟩ : home = core.id ∧ d = d' := by simpa using same
    exact coreType_eq_ok.mpr ⟨core, d, found, named, params, rfl⟩
  have shown : d.spelling (ClosedType.spellingAll [arg]) = .nullable arg.spelling :=
    TypeDefinition.spelling_optional unmarked nullable
  refine .ofNamed ?_
  rw [shown]
  refine ⟨.nullable (isHead_spelling single required) inner.readable, inner.unreserved,
    inner.shallow, ?_⟩
  rw [resolveType, inner.resolves, ok_bind, wrapped]
  rfl

/-- A built-in type is displayed by its keyword. -/
theorem spelled_keyword {p : Primitive} (marked : d.primitive = some p)
    (word : p.keyword?.isSome = true)
    (resolves : s.snapshot.primitive p = .ok (.named home d [])) :
    s.Spelled (levels + 1) (.named home d []) := by
  refine .ofNamed ?_
  rw [TypeDefinition.spelling_builtIn marked, if_pos word]
  exact ⟨.keyword word, nofun, Nat.succ_le_succ (Nat.zero_le _), resolves⟩

/-- A built-in type without a keyword is displayed by its full name. -/
theorem spelled_native {p : Primitive} (marked : d.primitive = some p)
    (wordless : p.keyword? = none)
    (found : s.findNamed? (corePath (simpleName p) 0) = some (fullName, home, d))
    (params : d.genericParams.length = 0) : s.Spelled (levels + 1) (.named home d []) := by
  obtain ⟨isName, free, -⟩ := simpleName_plain p
  obtain ⟨nameable, plain⟩ := corePath_plain isName free (Nat.zero_le _)
  have shown : (dottedNames p.fullName).map (·, []) =
      regroup (corePath (simpleName p) 0) ([] : List TypeExpr) := by
    cases p <;> rfl
  refine .ofNamed ?_
  rw [TypeDefinition.spelling_builtIn marked, wordless, if_neg (by decide), shown]
  exact readsAs_named found nameable plain rfl params .nil

end Definitions

section Displays
variable {args : List ClosedType} {fullName : String}

theorem displays_args (displays : s.snapshot.Displays (.named home d args)) :
    ∀ arg ∈ args, s.snapshot.Displays arg := by
  intro arg member
  have inside : arg.components ⊆ ClosedType.components (.named home d args) := by
    rw [ClosedType.components, ClosedType.componentsAll_eq]
    exact fun c listed => List.mem_cons_of_mem _ (List.mem_flatMap.mpr ⟨arg, member, listed⟩)
  exact ⟨fun c listed => displays.once c (inside listed),
    fun c listed => displays.optional c (inside listed)⟩

theorem self_mem_components : .named home d args ∈ ClosedType.components (.named home d args) := by
  rw [ClosedType.components]
  exact List.mem_cons_self

theorem displays_optional (displays : s.snapshot.Displays (.named home d args))
    (nullable : d.isNullable = true) :
    ∀ arg ∈ args, arg.definition?.isSome = true ∧ arg.isNullable = false := by
  refine displays.optional _ self_mem_components ?_
  simpa [ClosedType.isNullable, ClosedType.definition?] using nullable

/-- A built-in type of the core library is displayed by its keyword, or by its name if it is not
marked as built in. -/
theorem spelled_primitive (built : s.snapshot.Built) (marked : s.snapshot.Marked) {p : Primitive}
    (word : p.keyword?.isSome = true) (resolves : s.snapshot.primitive p = .ok t)
    (displays : s.snapshot.Displays t) : s.Spelled (levels + 1) t := by
  obtain ⟨core, d, found, named, params, rfl⟩ := coreType_eq_ok.mp resolves
  have loaded := List.mem_of_find?_eq_some found
  obtain ⟨member, same⟩ := typeNamed?_eq_some named
  cases mark : d.primitive with
  | some q =>
    have own := (marked.builtIn core loaded d member q mark).2
    obtain rfl : p = q := fullName_injective (same.symm.trans own)
    exact spelled_keyword mark word resolves
  | none =>
    obtain ⟨isName, free, full⟩ := simpleName_plain p
    obtain ⟨nameable, plain⟩ := corePath_plain isName free (Nat.zero_le maxCount)
    have path := displayedPath_core (built.declared core loaded d member) nameable
      (same.trans full)
    have required : d.isNullable = false := by
      by_contra nullable
      have own := ((marked.optional core loaded d member).mp (Bool.of_not_eq_false nullable)).2
      exact fullName_ne_nullable p (same.symm.trans own)
    have once := displays.once _ self_mem_components
    refine spelled_found (path ▸ findNamed?_core found (full ▸ named) once) (path ▸ nameable)
      (path ▸ plain) (by rw [path]; rfl) params mark required nofun

/-- A type that a name means is displayed by the same name, if it has no display of its own. -/
theorem spelled_named (built : s.snapshot.Built) (marked : s.snapshot.Marked)
    {path : List (String × Nat)} (nameable : Nameable path) (plain : PlainPath path)
    (found : s.findNamed? path = some (fullName, home, d))
    (sum : (path.map (·.2)).sum = args.length) (params : d.genericParams.length = args.length)
    (displays : s.snapshot.Displays (.named home d args))
    (each : ∀ arg ∈ args, s.Spelled levels arg) :
    s.Spelled (levels + 1) (.named home d args) := by
  obtain rfl := displayedPath_eq built nameable found
  obtain ⟨_, _, _, -, -, -, located⟩ := findNamed?_eq_some found
  obtain ⟨m, loaded, rfl, named⟩ := locateType?_eq_some located
  obtain ⟨member, same⟩ := typeNamed?_eq_some named
  have declared := built.declared m loaded d member
  cases mark : d.primitive with
  | some p =>
    obtain ⟨core, own⟩ := marked.builtIn m loaded d member p mark
    obtain ⟨isName, free, full⟩ := simpleName_plain p
    have path := displayedPath_core declared (corePath_plain isName free (Nat.zero_le _)).1
      (own.trans full)
    rw [path] at sum found
    obtain rfl := List.length_eq_zero_iff.mp sum.symm
    cases word : p.keyword? with
    | some keyword =>
      refine spelled_keyword mark (by simp [word]) (coreType_eq_ok.mpr ?_)
      exact ⟨m, d, core, own ▸ same ▸ named, params, rfl⟩
    | none => exact spelled_native mark word found params
  | none =>
    cases nullable : d.isNullable with
    | false => exact spelled_found found nameable plain sum params mark nullable each
    | true =>
      obtain ⟨core, own⟩ := (marked.optional m loaded d member).mp nullable
      obtain ⟨isName, free, full⟩ := nullable_plain
      have path := displayedPath_core declared (corePath_plain isName free (by decide)).1
        (own.trans full)
      rw [path] at sum
      obtain ⟨arg, rfl⟩ := List.length_eq_one_iff.mp sum.symm
      obtain ⟨single, required⟩ := displays_optional displays nullable arg (by simp)
      refine (spelled_optional (coreType_eq_ok.mpr ?_) mark nullable (each arg (by simp)) single
        required).mono (Nat.le_succ _)
      exact ⟨m, d, core, own ▸ same ▸ named, params, rfl⟩

/-- A type that a written type means is displayed by a type that is read within as many levels, and
that means it up to the order of ranks. -/
theorem spelled_of_readable (built : s.snapshot.Built) (marked : s.snapshot.Marked)
    (readable : written.Readable) (plain : ∀ path ∈ written.paths, PlainPath path)
    (resolves : s.resolveType written = .ok t) (displays : s.snapshot.Displays t) :
    s.Spelled written.depth t := by
  induction readable generalizing t with
  | keyword word => exact spelled_primitive built marked word resolves displays
  | @named isGlobal segments nonempty names first args ih =>
    rw [resolveType] at resolves
    obtain ⟨types, argsResolve, resolves⟩ := bind_eq_ok.mp resolves
    obtain ⟨sum, means⟩ := resolveSegments_eq_ok argsResolve
    split at resolves
    · cases resolves
    · rename_i fullName home d found
      have params : d.genericParams.length = types.length := by
        by_contra other
        simp [other] at resolves
      obtain rfl : .named home d types = t := by simpa [params] using resolves
      rw [TypeExpr.paths, List.forall_mem_cons] at plain
      have nameable : Nameable (segments.map fun s => (s.1, s.2.length)) :=
        List.forall_mem_map.mpr fun segment member =>
          ⟨names segment member, plain.1.counted _ (List.mem_map_of_mem member)⟩
      refine spelled_named built marked nameable plain.1 found ?_ params displays ?_
      · rw [List.map_map]
        exact sum
      · intro type member
        obtain ⟨segment, inSegments, arg, inArgs, argResolves⟩ := means type member
        have inner : ∀ path ∈ arg.paths, PlainPath path := by
          rw [TypeExpr.pathsOfSegments_eq] at plain
          exact fun path listed => plain.2 path <| List.mem_flatMap.mpr
            ⟨segment, inSegments, List.mem_flatMap.mpr ⟨arg, inArgs, listed⟩⟩
        refine (ih segment inSegments arg inArgs inner argResolves
          (displays_args displays type member)).mono ?_
        exact (TypeExpr.depth_le_all inArgs).trans (TypeExpr.depth_le_segments inSegments)
  | @nullable inner head readable ih =>
    rw [resolveType] at resolves
    obtain ⟨arg, argResolves, resolves⟩ := bind_eq_ok.mp resolves
    obtain ⟨core, d, found, named, params, rfl⟩ := coreType_eq_ok.mp resolves
    have loaded := List.mem_of_find?_eq_some found
    obtain ⟨member, same⟩ := typeNamed?_eq_some named
    have nullable := (marked.optional core loaded d member).mpr ⟨found, same⟩
    have unmarked : d.primitive = none := by
      cases mark : d.primitive with
      | none => rfl
      | some p =>
        have own := (marked.builtIn core loaded d member p mark).2
        exact absurd (own.symm.trans same) (fullName_ne_nullable p)
    obtain ⟨single, required⟩ := displays_optional displays nullable arg (by simp)
    exact spelled_optional resolves unmarked nullable
      (ih plain argResolves (displays_args displays arg (by simp))) single required
  | @array element rank positive readable ih =>
    rw [resolveType] at resolves
    obtain ⟨type, elementResolves, same⟩ := bind_eq_ok.mp resolves
    obtain rfl := Except.ok.inj same
    exact (ih plain elementResolves ⟨displays.once, displays.optional⟩).ofArray positive

/-- The display of a type that a written type means is read within as many levels, and means the
type with the ranks of arrays of arrays turned around: the type itself, where these read the same
from both ends. -/
theorem display_resolves (built : s.snapshot.Built) (marked : s.snapshot.Marked)
    (parsed : written.Parsed) (plain : ∀ path ∈ written.paths, PlainPath path)
    (resolves : s.resolveType written = .ok t) (displays : s.snapshot.Displays t) :
    ∃ scanned shown, scan t.display = .ok scanned ∧
      (∀ b levels, written.depth ≤ levels →
        readTypeExpr b levels scanned.tokens = .ok (shown, [])) ∧
      s.resolveType shown = .ok t.turned ∧
      ((∀ stack ∈ t.rankStacks, stack.reverse = stack) → s.resolveType shown = .ok t) := by
  have spelled : s.ReadsAs written.depth t.spelling t.turned :=
    spelled_of_readable built marked parsed.readable plain resolves displays [] nofun
  obtain ⟨scanned, scans, tokens⟩ := spelled.readable.scan_display spelled.unreserved
  rw [ClosedType.display_spelling] at scans
  refine ⟨scanned, t.spelling, scans, fun b levels fits => ?_, spelled.resolves, fun even => ?_⟩
  · have read := readTypeExpr_read (b := b) spelled.readable
      (spelled.shallow.trans fits) tokens (nofun : Lacks typeMarks [])
    rwa [List.append_nil] at read
  · rw [spelled.resolves, ClosedType.turned_eq even]

end Displays

namespace OptionalItems

/-- The types of a small core library. -/
def coreTypes : List TypeDeclaration :=
  [{ fullName := Primitive.object.fullName, kind := .classType, primitive := some .object },
    { fullName := Primitive.int32.fullName, kind := .valueType, primitive := some .int32 },
    { fullName := nullableName, kind := .valueType }]

/-- A generic class, and another class nested in it. -/
def appTypes : List TypeDeclaration :=
  [{ fullName := "Ns.Outer\x601", kind := .classType },
    { fullName := "Ns.Outer\x601+Inner", kind := .classType }]

def modules : Snapshot :=
  (Snapshot.empty.add (.build (.simple "Core" ⟨1, 0, 0, 0⟩) coreTypes)).add
    (.build (.simple "App" ⟨1, 0, 0, 0⟩) appTypes)

/-- Integers. -/
def integer : ClosedType :=
  .named ⟨0⟩ (coreTypes[1].define (.typeDefinition 2)) []

/-- The nested class with an optional integer for the parameter of the outer class. -/
def item : ClosedType :=
  .named ⟨1⟩ (appTypes[1].define (.typeDefinition 2))
    [.named ⟨0⟩ (coreTypes[2].define (.typeDefinition 3)) [integer]]

/-- The written class, `Ns.Outer<int?>.Inner`. -/
def itemSegments : List (String × List TypeExpr) :=
  [("Ns", []), ("Outer", [.nullable (.keyword .int32)]), ("Inner", [])]

def itemName : TypeExpr :=
  .named false itemSegments

/-- The body of a static method. -/
def scope : Scope :=
  { Sample.scope [] [] with
    snapshot := modules
    frame := ⟨⟨1⟩, item, "Main", true, [], []⟩ }

theorem modules_marked : modules.Marked := by
  have names : coreTypes.map (·.fullName) = ["System.Object", "System.Int32", nullableName] := rfl
  constructor
  · refine List.forall_mem_cons.mpr ⟨fun d member p mark => ⟨rfl, ?_⟩, ?_⟩
    · have each : ∀ d ∈ (Module.build (.simple "Core" ⟨1, 0, 0, 0⟩) coreTypes).types,
          ∀ p ∈ d.primitive, d.fullName = p.fullName := by decide +kernel
      exact each d member p mark
    · have each : ∀ d ∈ (Module.build (.simple "App" ⟨1, 0, 0, 0⟩) appTypes).types,
          d.primitive = none := by decide +kernel
      refine List.forall_mem_singleton.mpr fun d member p mark => ?_
      rw [each d member] at mark
      cases mark
  · refine List.forall_mem_cons.mpr ⟨fun d member => ?_, ?_⟩
    · have each : ∀ d ∈ (Module.build (.simple "Core" ⟨1, 0, 0, 0⟩) coreTypes).types,
          (d.isNullable = true ↔ d.fullName = nullableName) := by decide +kernel
      rw [each d member]
      exact ⟨fun same => ⟨rfl, same⟩, And.right⟩
    · have each : ∀ d ∈ (Module.build (.simple "App" ⟨1, 0, 0, 0⟩) appTypes).types,
          d.isNullable = false ∧ d.fullName ≠ nullableName := by decide +kernel
      refine List.forall_mem_singleton.mpr fun d member => ?_
      simp [each d member]

theorem itemName_readable : itemName.Readable := by
  have names : ∀ segment ∈ itemSegments, segment.1.toList.head?.any isNameStart = true ∧
      segment.1.toList.tail.all isNamePart = true := by decide
  refine .named (by simp [itemSegments]) (fun segment member => ?_) (by decide) ?_
  · exact isName_of_all (names segment member).1 (names segment member).2
  · simp only [itemSegments, List.forall_mem_cons]
    exact ⟨nofun, ⟨.nullable rfl (.keyword rfl), nofun⟩, nofun, nofun⟩

theorem item_display : (ClosedType.array (.array (.array item 2) 1) 2).display =
      "Ns.Outer<int?>.Inner[,][][,]" ∧
    ∃ shown, scope.resolveType shown = .ok (.array (.array (.array item 2) 1) 2) := by
  have parsed : (TypeExpr.array (.array (.array itemName 2) 1) 2).Parsed :=
    TypeExpr.parsed_iff_readable.mpr (.array (by decide) (.array (by decide)
      (.array (by decide) itemName_readable)))
  have plain : PlainPath (itemSegments.map fun s => (s.1, s.2.length)) :=
    ⟨by decide, by decide, by decide⟩
  have displays : modules.Displays (.array (.array (.array item 2) 1) 2) :=
    ⟨by decide +kernel, by decide +kernel⟩
  obtain ⟨scanned, shown, -, -, -, same⟩ := display_resolves (s := scope)
    (.add (.add .empty _ _) _ _) modules_marked parsed
    (List.forall_mem_singleton.mpr plain) rfl displays
  exact ⟨by decide +kernel, shown, same (by decide)⟩

/-- The type that a text means. -/
def meaning (text : String) : Except Error ClosedType := do
  let scanned ← scan text
  let (written, _) ← readTypeExpr ⟨scanned.stop, 1⟩ 1 scanned.tokens
  scope.resolveType written

/-- The display of an array of two-dimensional arrays means another type: its ranks are read in an
order in which they are not displayed. -/
theorem integers_turned : ∃ t, (meaning "int[][,]").toOption.any (· == t) = true ∧
    (meaning t.display).toOption.any (fun read => read == t.turned && read != t) = true :=
  ⟨.array (.array integer 1) 2, by decide +kernel, by decide +kernel⟩

end OptionalItems

end Scope

end Bound

end DebugExpr
