import Mathlib.Data.List.Forall2
import Mathlib.Data.List.Induction
import DebugExpr.Proofs.Success
import DebugExpr.QualifiedName.Resolution

/-! What becomes of a name that is resolved. Every name of the tree is judged by itself: it may be
missing, because its assembly is not loaded, or unsupported, and then loading assemblies would not
help. The outcome follows from these judgements alone. One unsupported name makes the whole name
unsupported; otherwise all missing assemblies are reported; otherwise there is a type, of the same
form as the name. The policy that matches assemblies is arbitrary. -/
namespace DebugExpr.QualifiedName
open Metadata

theorem filter_eraseDups {α : Type} [BEq α] [LawfulBEq α] (p : α → Bool) (xs : List α) :
    (xs.filter p).eraseDups = xs.eraseDups.filter p := by
  generalize bound : xs.length = n
  induction n using Nat.strongRecOn generalizing xs with
  | ind n ih =>
    cases xs with
    | nil => rfl
    | cons x rest =>
      have shorter : (rest.filter fun y => !y == x).length < n := by
        have := List.length_filter_le (fun y => !y == x) rest
        simp only [List.length_cons] at bound
        omega
      have inner := ih _ shorter (rest.filter fun y => !y == x) rfl
      rw [List.eraseDups_cons, List.filter_cons, List.filter_cons, ← inner]
      simp only [List.filter_filter]
      by_cases kept : p x = true
      · rw [if_pos kept, if_pos kept, List.eraseDups_cons, List.filter_filter]
        simp only [Bool.and_comm]
      · -- a name that is dropped occurs no further, so it need not be looked for
        rw [if_neg kept, if_neg kept]
        congr 1
        apply List.filter_congr
        intro y _
        by_cases same : y = x
        · simp [same, kept]
        · simp [same]

/-- Merging lists without repetitions is collecting from one list after the other. -/
theorem merge_eraseDups (rs rs' : List Assembly.Reference) :
    Failure.merge rs.eraseDups rs'.eraseDups = (rs ++ rs').eraseDups := by
  rw [Failure.merge, List.eraseDups_append, List.removeAll, filter_eraseDups]
  congr 1
  apply List.filter_congr
  intro r _
  rw [Bool.eq_iff_iff]
  simp

mutual

/-- The name and all names below it, in the order in which they are written, each with the depth at
which it stands. -/
def nodesFrom (depth : Nat) : QualifiedName → List (Nat × QualifiedName)
  | ⟨path, args, suffixes, origin⟩ =>
    (depth, ⟨path, args, suffixes, origin⟩) :: nodesFromAll (depth + 1) args

def nodesFromAll (depth : Nat) : List QualifiedName → List (Nat × QualifiedName)
  | [] => []
  | t :: rest => nodesFrom depth t ++ nodesFromAll depth rest

end

/-- The names of the tree; the whole name stands at depth one. -/
def nodes (t : QualifiedName) : List (Nat × QualifiedName) :=
  t.nodesFrom 1

theorem nodesFrom_eq (depth : Nat) (t : QualifiedName) :
    t.nodesFrom depth = [(depth, t)] ++ nodesFromAll (depth + 1) t.args := by
  cases t
  rfl

/-- A type has the form of a name: an array for each suffix, the last outermost, and below the
arrays as many arguments, each of the form of the name's argument. -/
inductive Mirrors : QualifiedName → ClosedType → Prop
  | named {path : List Segment} {args : List QualifiedName} {origin : Origin} {home : ModuleId}
      {d : TypeDefinition} {types : List ClosedType} (each : List.Forall₂ Mirrors args types) :
      Mirrors ⟨path, args, [], origin⟩ (.named home d types)
  | array {path : List Segment} {args : List QualifiedName} {suffixes : List Suffix}
      {origin : Origin} {element : ClosedType} {rank : Nat}
      (inner : Mirrors ⟨path, args, suffixes, origin⟩ element) :
      Mirrors ⟨path, args, suffixes ++ [.array rank], origin⟩ (.array element rank)

theorem isIndirect_eq_true {t : QualifiedName} :
    t.isIndirect = true ↔ .pointer ∈ t.suffixes ∨ .byRef ∈ t.suffixes := by
  rw [isIndirect, List.any_eq_true]
  constructor
  · rintro ⟨suffix, member, indirect⟩
    cases suffix with
    | array => cases indirect
    | pointer => exact .inl member
    | byRef => exact .inr member
  · rintro (member | member)
    · exact ⟨_, member, rfl⟩
    · exact ⟨_, member, rfl⟩

theorem applySuffixes_mirrors {path : List Segment} {args : List QualifiedName} {origin : Origin}
    {suffixes : List Suffix} {home : ModuleId} {d : TypeDefinition} {types : List ClosedType}
    (direct : ¬ (.pointer ∈ suffixes ∨ .byRef ∈ suffixes))
    (each : List.Forall₂ Mirrors args types) :
    Mirrors ⟨path, args, suffixes, origin⟩
      (Resolver.applySuffixes suffixes (.named home d types)) := by
  induction suffixes using List.reverseRecOn with
  | nil => exact .named each
  | append_singleton suffixes last ih =>
    simp only [List.mem_append, List.mem_singleton] at direct
    cases last with
    | array rank =>
      rw [Resolver.applySuffixes, List.foldl_append]
      exact .array (ih (by tauto))
    | pointer => simp at direct
    | byRef => simp at direct

namespace Resolver
variable {r : Resolver} {α β : Type}

/-- The assembly that the name states, if the policy accepts it for no loaded module. -/
def missing? (r : Resolver) (t : QualifiedName) : Option Assembly.Reference :=
  match t.origin with
  | .assembly reference =>
    if r.snapshot.modules.any fun m => r.matching.accepts reference m.identity then none
    else some reference
  | .inModule _ | .unqualified => none

/-- Why a name cannot be resolved, whatever else is loaded. The name stands at a depth of the tree,
and its assembly is not missing if its definition counts. -/
inductive Unsupported (r : Resolver) (depth : Nat) (t : QualifiedName) : Prop
  | tooDeep (deep : r.maxDepth < depth)
  | indirect (suffix : .pointer ∈ t.suffixes ∨ .byRef ∈ t.suffixes)
  | noModule {id : ModuleId} (origin : t.origin = .inModule id)
      (unloaded : r.snapshot.get? id = none)
  | undefined {modules : List Module} (searched : r.candidates t.origin = .ok modules)
      (nowhere : ∀ m ∈ modules, m.typeNamed? t.fullName = none)
  | miscounted {modules : List Module} {d : TypeDefinition}
      (searched : r.candidates t.origin = .ok modules)
      (first : modules.findSome? (·.typeNamed? t.fullName) = some d)
      (count : d.genericParams.length ≠ t.args.length)

/-- The assemblies that are missing for the names, each once and in the order of the names. -/
def missingOf (r : Resolver) (nodes : List (Nat × QualifiedName)) : List Assembly.Reference :=
  (nodes.filterMap fun node => r.missing? node.2).eraseDups

theorem candidates_cases (r : Resolver) (t : QualifiedName) :
    (∃ modules, r.candidates t.origin = .ok modules ∧ r.missing? t = none) ∨
      (∃ reference, r.candidates t.origin = .error (.missing [reference]) ∧
        r.missing? t = some reference) ∨
      ∃ id, t.origin = .inModule id ∧ r.snapshot.get? id = none ∧
        r.candidates t.origin = .error (.unsupported id.display) := by
  unfold candidates missing?
  cases t.origin with
  | assembly reference =>
    cases found : r.snapshot.modules.filter fun m => r.matching.accepts reference m.identity with
    | nil =>
      have nobody : (r.snapshot.modules.any fun m => r.matching.accepts reference m.identity) =
          false := by
        rw [List.filter_eq_nil_iff] at found
        simpa using found
      simp [found, nobody]
    | cons m rest =>
      have someone : (r.snapshot.modules.any fun m => r.matching.accepts reference m.identity) =
          true := by
        have member : m ∈ m :: rest := List.mem_cons_self
        rw [← found, List.mem_filter] at member
        exact List.any_eq_true.mpr ⟨m, member⟩
      simp [found, someone]
  | inModule id =>
    cases loaded : r.snapshot.get? id with
    | some m => simp [loaded]
    | none => simp [loaded]
  | unqualified => simp

theorem findSome?_typeIn? (name : String) (modules : List Module) :
    (modules.findSome? (Snapshot.typeIn? name)).map (·.2) =
      modules.findSome? (·.typeNamed? name) := by
  induction modules with
  | nil => rfl
  | cons m rest ih =>
    rw [List.findSome?_cons, List.findSome?_cons, Snapshot.typeIn?]
    cases m.typeNamed? name with
    | some d => rfl
    | none => exact ih

/-- A result is what the names that it is made of call for. -/
def Decides (r : Resolver) (nodes : List (Nat × QualifiedName)) (Good : α → Prop) :
    Resolution α → Prop
  | .ok a => (∀ node ∈ nodes, ¬ r.Unsupported node.1 node.2) ∧ r.missingOf nodes = [] ∧ Good a
  | .error (.missing rs) => (∀ node ∈ nodes, ¬ r.Unsupported node.1 node.2) ∧
      r.missingOf nodes = rs ∧ rs ≠ []
  | .error (.unsupported _) => ∃ node ∈ nodes, r.Unsupported node.1 node.2

theorem missingOf_append (nodes nodes' : List (Nat × QualifiedName)) :
    r.missingOf (nodes ++ nodes') = Failure.merge (r.missingOf nodes) (r.missingOf nodes') := by
  rw [missingOf, List.filterMap_append, ← merge_eraseDups]
  rfl

namespace Decides
variable {nodes nodes' : List (Nat × QualifiedName)} {Good : α → Prop} {Good' : β → Prop}

theorem map {x : Resolution α} {f : α → β} (decides : r.Decides nodes Good x)
    (good : ∀ a, (∀ node ∈ nodes, ¬ r.Unsupported node.1 node.2) → Good a → Good' (f a)) :
    r.Decides nodes Good' (x.map f) := by
  rcases x with ⟨_ | _⟩ | a
  · exact decides
  · exact decides
  · exact ⟨decides.1, decides.2.1, good a decides.1 decides.2.2⟩

theorem both {x : Resolution α} {y : Resolution β} (first : r.Decides nodes Good x)
    (second : r.Decides nodes' Good' y) :
    r.Decides (nodes ++ nodes') (fun p => Good p.1 ∧ Good' p.2) (x.both y) := by
  have supported (left : ∀ node ∈ nodes, ¬ r.Unsupported node.1 node.2)
      (right : ∀ node ∈ nodes', ¬ r.Unsupported node.1 node.2) :
      ∀ node ∈ nodes ++ nodes', ¬ r.Unsupported node.1 node.2 :=
    List.forall_mem_append.mpr ⟨left, right⟩
  have inFirst : (∃ node ∈ nodes, r.Unsupported node.1 node.2) →
      ∃ node ∈ nodes ++ nodes', r.Unsupported node.1 node.2 :=
    fun ⟨node, member, unsupported⟩ => ⟨node, List.mem_append_left _ member, unsupported⟩
  have inSecond : (∃ node ∈ nodes', r.Unsupported node.1 node.2) →
      ∃ node ∈ nodes ++ nodes', r.Unsupported node.1 node.2 :=
    fun ⟨node, member, unsupported⟩ => ⟨node, List.mem_append_right _ member, unsupported⟩
  rcases x with ⟨name | rs⟩ | a
  · exact inFirst first
  · obtain ⟨left, rfl, nonempty⟩ := first
    rcases y with ⟨name | rs'⟩ | b
    · exact inSecond second
    · obtain ⟨right, rfl, -⟩ := second
      refine ⟨supported left right, missingOf_append .., ?_⟩
      simp [Failure.merge, nonempty]
    · obtain ⟨right, none, -⟩ := second
      refine ⟨supported left right, ?_, nonempty⟩
      simp [missingOf_append, none, Failure.merge]
  · obtain ⟨left, none, good⟩ := first
    rcases y with ⟨name | rs'⟩ | b
    · exact inSecond second
    · obtain ⟨right, rfl, nonempty⟩ := second
      refine ⟨supported left right, ?_, nonempty⟩
      simp [missingOf_append, none, Failure.merge]
    · obtain ⟨right, none', good'⟩ := second
      refine ⟨supported left right, ?_, good, good'⟩
      simp [missingOf_append, none, none', Failure.merge]

/-- Each result decides for the names of its own tree, so all together do for all trees. -/
theorem all {depth : Nat} {R : QualifiedName → α → Prop} {resolve : QualifiedName → Resolution α}
    {ts : List QualifiedName} (each : ∀ t ∈ ts, r.Decides (t.nodesFrom depth) (R t) (resolve t)) :
    r.Decides (nodesFromAll depth ts) (List.Forall₂ R ts) (.all (ts.map resolve)) := by
  induction ts with
  | nil => exact ⟨by simp [nodesFromAll], rfl, .nil⟩
  | cons t rest ih =>
    have first := each t (by simp)
    have further := ih fun t' member => each t' (by simp [member])
    exact (first.both further).map fun _ _ good => .cons good.1 good.2

end Decides

/-- Within the limit and without indirections only the search for the definition can fail. -/
theorem Unsupported.search {depth : Nat} {t : QualifiedName} (unsupported : r.Unsupported depth t)
    (within : depth ≤ r.maxDepth) (direct : ¬ (.pointer ∈ t.suffixes ∨ .byRef ∈ t.suffixes)) :
    (∃ id, t.origin = .inModule id ∧ r.snapshot.get? id = none) ∨
      ∃ modules, r.candidates t.origin = .ok modules ∧
        ∀ d, modules.findSome? (·.typeNamed? t.fullName) = some d →
          d.genericParams.length ≠ t.args.length := by
  rcases unsupported with deep | suffix | ⟨origin, unloaded⟩ | ⟨searched, nowhere⟩ |
    ⟨searched, first, count⟩
  · omega
  · exact absurd suffix direct
  · exact .inl ⟨_, origin, unloaded⟩
  · refine .inr ⟨_, searched, fun d found => ?_⟩
    rw [List.findSome?_eq_none_iff.mpr nowhere] at found
    cases found
  · refine .inr ⟨_, searched, fun d found => ?_⟩
    rw [first] at found
    cases found
    exact count

/-- The definition of a name is found just when the name itself gives no reason against it. -/
theorem locate_decides {depth : Nat} {t : QualifiedName} (within : depth ≤ r.maxDepth)
    (direct : ¬ (.pointer ∈ t.suffixes ∨ .byRef ∈ t.suffixes)) :
    r.Decides [(depth, t)] (fun _ => True) (r.locate t) := by
  unfold locate
  rcases r.candidates_cases t with ⟨modules, searched, loaded⟩ | ⟨reference, searched, missing⟩ |
      ⟨id, origin, unloaded, searched⟩
  · have same := findSome?_typeIn? t.fullName modules
    rw [searched, ok_bind]
    cases found : modules.findSome? (Snapshot.typeIn? t.fullName) with
    | none =>
      rw [found] at same
      have nowhere := List.findSome?_eq_none_iff.mp same.symm
      exact ⟨_, List.mem_singleton_self _, .undefined searched nowhere⟩
    | some place =>
      obtain ⟨home, d⟩ := place
      rw [found] at same
      by_cases count : d.genericParams.length = t.args.length
      · simp only [count, if_true]
        refine ⟨?_, by simp [missingOf, loaded], trivial⟩
        simp only [List.mem_singleton, forall_eq]
        intro unsupported
        rcases unsupported.search within direct with ⟨id, origin, unloaded⟩ |
          ⟨modules', searched', other⟩
        · rw [origin, candidates, unloaded] at searched
          cases searched
        · rw [searched] at searched'
          cases searched'
          exact other d same.symm count
      · simp only [count, if_false]
        exact ⟨_, List.mem_singleton_self _, .miscounted searched same.symm count⟩
  · rw [searched]
    refine ⟨?_, by simp [missingOf, missing, List.eraseDups_cons], by simp⟩
    simp only [List.mem_singleton, forall_eq]
    intro unsupported
    rcases unsupported.search within direct with ⟨id, origin, unloaded⟩ |
      ⟨modules', searched', -⟩
    · rw [missing?, origin] at missing
      cases missing
    · rw [searched] at searched'
      cases searched'
  · rw [searched]
    exact ⟨_, List.mem_singleton_self _, .noModule origin unloaded⟩

/-- As many levels are followed as are left below the limit. -/
theorem resolveWithin_decides {levels depth : Nat} (left : levels + depth = r.maxDepth + 1)
    (t : QualifiedName) :
    r.Decides (t.nodesFrom depth) (Mirrors t) (r.resolveWithin levels t) := by
  induction levels generalizing depth t with
  | zero =>
    rw [nodesFrom_eq]
    exact ⟨(depth, t), by simp, .tooDeep (by omega)⟩
  | succ levels ih =>
    rw [nodesFrom_eq, resolveWithin]
    by_cases indirect : t.isIndirect = true
    · rw [if_pos indirect]
      exact ⟨(depth, t), by simp, .indirect (isIndirect_eq_true.mp indirect)⟩
    · rw [if_neg indirect]
      have direct := mt isIndirect_eq_true.mpr indirect
      have args : r.Decides (nodesFromAll (depth + 1) t.args) (List.Forall₂ Mirrors t.args)
          (.all (t.args.map (r.resolveWithin levels))) :=
        .all fun arg _ => ih (by omega) arg
      refine ((locate_decides (by omega) direct).both args).map ?_
      rintro ⟨⟨home, d⟩, types⟩ - ⟨-, each⟩
      cases t
      exact applySuffixes_mirrors direct each

/-- A name is unsupported just when a name of its tree is. If none is and assemblies are missing,
exactly these are reported, each once, in the order of the names; if none are, the name resolves to
a type of its own form. -/
theorem resolve_outcome (r : Resolver) (t : QualifiedName) :
    ((∃ name, r.resolve t = .error (.unsupported name)) ↔
      ∃ node ∈ t.nodes, r.Unsupported node.1 node.2) ∧
    ((∀ node ∈ t.nodes, ¬ r.Unsupported node.1 node.2) →
      (∃ node ∈ t.nodes, r.missing? node.2 ≠ none) →
        r.resolve t =
          .error (.missing (t.nodes.filterMap fun node => r.missing? node.2).eraseDups)) ∧
    ((∀ node ∈ t.nodes, ¬ r.Unsupported node.1 node.2) →
      (∀ node ∈ t.nodes, r.missing? node.2 = none) →
        ∃ type, r.resolve t = .ok type ∧ Mirrors t type) := by
  have decides : r.Decides t.nodes (Mirrors t) (r.resolve t) := resolveWithin_decides rfl t
  have none_iff : r.missingOf t.nodes = [] ↔ ∀ node ∈ t.nodes, r.missing? node.2 = none := by
    constructor
    · intro none node member
      cases missing : r.missing? node.2 with
      | none => rfl
      | some reference =>
        have listed : reference ∈ r.missingOf t.nodes :=
          List.mem_eraseDups.mpr (List.mem_filterMap.mpr ⟨node, member, missing⟩)
        rw [none] at listed
        cases listed
    · intro none
      rw [missingOf, List.filterMap_eq_nil_iff.mpr none]
      rfl
  cases resolved : r.resolve t with
  | ok type =>
    rw [resolved] at decides
    obtain ⟨supported, none, mirrors⟩ := decides
    refine ⟨?_, ?_, fun _ _ => ⟨type, rfl, mirrors⟩⟩
    · simpa using supported
    · rintro - ⟨node, member, missing⟩
      exact absurd (none_iff.mp none node member) missing
  | error failure =>
    rw [resolved] at decides
    cases failure with
    | unsupported name =>
      obtain ⟨node, member, unsupported⟩ := decides
      refine ⟨?_, ?_, ?_⟩
      · exact ⟨fun _ => ⟨node, member, unsupported⟩, fun _ => ⟨name, rfl⟩⟩
      · exact fun supported => absurd unsupported (supported node member)
      · exact fun supported => absurd unsupported (supported node member)
    | missing rs =>
      obtain ⟨supported, rfl, nonempty⟩ := decides
      refine ⟨?_, fun _ _ => rfl, ?_⟩
      · simpa using supported
      · exact fun _ none => absurd (none_iff.mpr none) nonempty

/-- A name with two arguments, of which no assembly is loaded: one is stated twice. -/
def scattered : QualifiedName :=
  let inner : QualifiedName := ⟨[⟨"C", 0⟩], [], [.array 2], .assembly (.named "C")⟩
  ⟨[⟨"X", 2⟩], [inner, ⟨[⟨"D", 1⟩], [inner], [], .assembly (.named "D")⟩], [],
    .assembly (.named "E")⟩

theorem scattered_missing : ({ snapshot := .empty } : Resolver).resolve scattered =
    .error (.missing [.named "E", .named "C", .named "D"]) := by
  have supported : ∀ node ∈ scattered.nodes,
      ¬ ({ snapshot := .empty } : Resolver).Unsupported node.1 node.2 := by
    have single : ∀ node ∈ scattered.nodes, node.1 ≤ defaultMaxDepth ∧
        node.2.isIndirect = false ∧ ∃ name, node.2.origin = .assembly (.named name) := by
      simp [scattered, nodes, nodesFrom, nodesFromAll, isIndirect, defaultMaxDepth]
    intro node member unsupported
    obtain ⟨within, direct, name, origin⟩ := single node member
    rcases unsupported with deep | suffix | ⟨other, -⟩ | ⟨searched, -⟩ | ⟨searched, -⟩
    · exact absurd deep (Nat.not_lt.mpr within)
    · rw [isIndirect_eq_true.mpr suffix] at direct
      cases direct
    all_goals simp_all [candidates, Snapshot.empty]
  exact (resolve_outcome _ _).2.1 supported
    ⟨_, List.mem_cons_self, by simp [missing?, Snapshot.empty]⟩

end Resolver

end DebugExpr.QualifiedName
