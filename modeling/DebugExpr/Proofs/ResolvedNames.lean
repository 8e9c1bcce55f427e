import Mathlib.Algebra.Order.BigOperators.Group.List
import Mathlib.Algebra.Order.Group.Nat
import DebugExpr.Metadata.CoreLibrary
import DebugExpr.Proofs.DefinitionNames
import DebugExpr.Proofs.HeldTypes
import DebugExpr.Proofs.TypeNames

/-! What a resolved name spells. A definition is looked for under one text, in which the names of
the path are joined by plus signs. A name of the path may itself hold a plus sign, behind an escape,
and then finds a nested definition; without such names the path is that of the definition, and it is
the only one that leads there. -/
namespace DebugExpr

namespace Metadata

/-- The type that arrays are made of, on all levels. -/
def ClosedType.element : ClosedType → ClosedType
  | .named home d args => .named home d args
  | .array element _ => element.element

end Metadata

namespace QualifiedName
open Text Metadata

theorem not_mem_toDigits {mark : Char} {n : Nat} (sign : mark.isDigit = false) :
    mark ∉ Nat.toDigits 10 n := by
  intro member
  rw [Nat.isDigit_of_mem_toDigits (by decide) (by decide) member] at sign
  cases sign

namespace Segment
variable {s s' : Segment}

theorem toList_metadataName (s : Segment) :
    s.metadataName.toList = s.name.toList ++ arityMark s.arity := by
  have text (s : String) : toString s = s := rfl
  unfold metadataName arityMark
  split <;> simp [String.toList_append, text]

theorem plus_metadataName : '+' ∈ s.metadataName.toList ↔ '+' ∈ s.name.toList := by
  have free : '+' ∉ arityMark s.arity := by
    unfold arityMark
    split
    · exact List.not_mem_nil
    · simpa using not_mem_toDigits (by decide)
  rw [toList_metadataName, List.mem_append, or_iff_left free]

/-- The arity is cut off again. -/
theorem cutArity_metadataName (small : s.arity ≤ maxCount) (generic : s.arity ≠ 0) :
    cutArity s.metadataName = (s.name, s.arity) := by
  have cut : cutLast '\x60' s.metadataName.toList =
      some (s.name.toList, Nat.toDigits 10 s.arity) := by
    rw [cutLast_eq_some, toList_metadataName, arityMark, if_neg generic]
    exact ⟨rfl, not_mem_toDigits (by decide)⟩
  have counted : count? (Nat.toDigits 10 s.arity) = some s.arity := by
    have unsigned : (Nat.toDigits 10 s.arity).head? ≠ some '+' := fun plus =>
      not_mem_toDigits (by decide) (List.mem_of_mem_head? plus)
    rw [count?, if_neg unsigned, decimal_toDigits]
    simp [small]
  simp [cutArity, cut, counted]

theorem Readable.arity_le (readable : s.Readable) : s.arity ≤ maxCount :=
  Nat.le_trans readable.small (by decide)

theorem arity_le_cutArity (readable : s.Readable) : s.arity ≤ (cutArity s.metadataName).2 := by
  by_cases generic : s.arity = 0
  · omega
  · exact Nat.le_of_eq (congrArg Prod.snd (cutArity_metadataName readable.arity_le generic)).symm

/-- A segment whose arity is the one that its metadata name shows is told by that name. -/
theorem eq_of_metadataName (readable : s.Readable) (readable' : s'.Readable)
    (shown : (cutArity s.metadataName).2 = s.arity)
    (shown' : (cutArity s'.metadataName).2 = s'.arity)
    (same : s.metadataName = s'.metadataName) : s = s' := by
  have arity : s.arity = s'.arity := by rw [← shown, ← shown', same]
  have name : s.name = s'.name := by
    by_cases generic : s.arity = 0
    · simpa [metadataName, generic, ← arity] using same
    · have cut := cutArity_metadataName readable.arity_le generic
      rw [same, cutArity_metadataName readable'.arity_le (arity ▸ generic)] at cut
      exact (congrArg Prod.fst cut).symm
  cases s
  cases s'
  simp_all

end Segment

section Paths
variable {t t' : QualifiedName} {d : TypeDefinition} {arg arg' : QualifiedName → Prop}

/-- The path is that of the definition which its full name finds, unless a name of it holds a plus
sign. -/
theorem path_spelled (declared : d.Declared) (someName : t.path ≠ [])
    (named : d.fullName = t.fullName) : t.path.map Segment.metadataName = d.spelledPath ↔
      ∀ s ∈ t.path, '+' ∉ s.name.toList := by
  constructor
  · intro spelled s member
    rw [← Segment.plus_metadataName]
    exact declared.plusless _ (spelled ▸ List.mem_map_of_mem member)
  · intro plusless
    have parts : t.fullName.toList.splitOn '+' =
        (t.path.map Segment.metadataName).map String.toList := by
      refine splitOn_joined (by simpa using someName) ?_
      simpa [Segment.plus_metadataName] using plusless
    rw [← named, declared.splitOn_fullName] at parts
    exact (List.map_inj_right fun _ _ => String.toList_inj.mp).mp parts.symm

/-- A path with as many arguments as its definition has parameters shows the arities of all its
names. -/
theorem arities_shown (declared : d.Declared) (shaped : Shaped arg t)
    (counted : d.genericParams.length = t.args.length)
    (spelled : t.path.map Segment.metadataName = d.spelledPath) :
    ∀ s ∈ t.path, (cutArity s.metadataName).2 = s.arity := by
  have atLeast : ∀ s ∈ t.path, s.arity ≤ (cutArity s.metadataName).2 :=
    fun s member => Segment.arity_le_cutArity (shaped.path s member)
  have atMost : (t.path.map fun s => (cutArity s.metadataName).2).sum ≤
      (t.path.map (·.arity)).sum := by
    calc (t.path.map fun s => (cutArity s.metadataName).2).sum
        = (d.spelledPath.map fun name => (cutArity name).2).sum := by
          rw [← spelled, List.map_map]
          rfl
      _ ≤ pathArity t.path := by
          rw [← shaped.counted, ← counted]
          exact declared.arity_le
      _ ≤ (t.path.map (·.arity)).sum := by
          rw [pathArity, List.sum_eq_foldr, List.foldr_map]
          exact Nat.min_le_left _ _
  intro s member
  by_contra more
  have less : s.arity < (cutArity s.metadataName).2 :=
    Nat.lt_of_le_of_ne (atLeast s member) (Ne.symm more)
  exact absurd (List.sum_lt_sum _ _ atLeast ⟨s, member, less⟩) (Nat.not_lt.mpr atMost)

/-- Only one path without plus signs has the names of a definition. -/
theorem path_unique (declared : d.Declared) (shaped : Shaped arg t) (shaped' : Shaped arg' t')
    (counted : d.genericParams.length = t.args.length)
    (counted' : d.genericParams.length = t'.args.length)
    (spelled : t.path.map Segment.metadataName = d.spelledPath)
    (spelled' : t'.path.map Segment.metadataName = d.spelledPath) : t.path = t'.path := by
  have shown := arities_shown declared shaped counted spelled
  have shown' := arities_shown declared shaped' counted' spelled'
  have same := spelled.trans spelled'.symm
  have lengths : t.path.length = t'.path.length := by simpa using congrArg List.length same
  refine List.ext_getElem lengths fun i inside inside' => ?_
  have first := List.getElem_mem inside
  have second := List.getElem_mem inside'
  refine Segment.eq_of_metadataName (shaped.path _ first) (shaped'.path _ second)
    (shown _ first) (shown' _ second) ?_
  have := List.getElem_of_eq same (i := i) (by simpa using inside)
  simpa using this

end Paths

namespace Resolver
variable {r r' : Resolver} {t t' : QualifiedName} {type type' : ClosedType} {d : TypeDefinition}
  {home home' : ModuleId} {args args' : List ClosedType}

/-- A name resolves level by level: its definition, its arguments, and the arrays around it. -/
theorem resolveWithin_eq_ok {levels : Nat} : r.resolveWithin (levels + 1) t = .ok type ↔
    t.isIndirect = false ∧ ∃ home d args, r.locate t = .ok (home, d) ∧
      Resolution.all (t.args.map (r.resolveWithin levels)) = .ok args ∧
      type = applySuffixes t.suffixes (.named home d args) := by
  rw [resolveWithin]
  by_cases indirect : t.isIndirect = true
  · simp [indirect]
  · rw [if_neg indirect]
    constructor
    · intro resolved
      obtain ⟨⟨⟨home, d⟩, args⟩, both, rfl⟩ := Resolution.map_eq_ok resolved
      obtain ⟨located, all⟩ := Resolution.both_eq_ok both
      exact ⟨by simpa using indirect, home, d, args, located, all, rfl⟩
    · rintro ⟨-, home, d, args, located, all, rfl⟩
      rw [located, all]
      rfl

theorem element_applySuffixes (suffixes : List Suffix) (type : ClosedType) :
    (applySuffixes suffixes type).element = type.element := by
  induction suffixes generalizing type with
  | nil => rfl
  | cons suffix rest ih =>
    rw [applySuffixes, List.foldl_cons]
    refine (ih _).trans ?_
    cases suffix <;> rfl

/-- The definition that is located is the first of its name in the modules that are searched. -/
theorem locate_iff : r.locate t = .ok (home, d) ↔ ∃ modules, r.candidates t.origin = .ok modules ∧
    modules.findSome? (Snapshot.typeIn? t.fullName) = some (home, d) ∧
    d.genericParams.length = t.args.length := by
  constructor
  · intro located
    have counted := (locate_eq_ok located []).2
    obtain ⟨modules, searched, located⟩ := bind_eq_ok.mp located
    split at located
    · rename_i found
      split at located
      · cases pure_eq_ok.mp located
        exact ⟨modules, searched, found, counted⟩
      · simp at located
    · simp at located
  · rintro ⟨modules, searched, found, counted⟩
    rw [locate, searched, ok_bind, found]
    simp [counted, pure, Except.pure]

/-- The definition that was located is one of a loaded module, under the name's own text. -/
theorem locate_named (located : r.locate t = .ok (home, d)) :
    ∃ m ∈ r.snapshot.modules, m.id = home ∧ d ∈ m.types ∧ d.fullName = t.fullName ∧
      d.genericParams.length = t.args.length := by
  obtain ⟨modules, searched, found, counted⟩ := locate_iff.mp located
  obtain ⟨m, member, inModule⟩ := List.exists_of_findSome?_eq_some found
  obtain ⟨_, named, same⟩ := Option.map_eq_some_iff.mp inModule
  cases same
  exact ⟨m, candidates_loaded searched m member, rfl, List.mem_of_find?_eq_some named,
    by simpa using List.find?_some named, counted⟩

theorem resolve_located (resolved : r.resolve t = .ok type)
    (element : type.element = .named home d args) : r.locate t = .ok (home, d) := by
  rw [resolve] at resolved
  cases levels : r.maxDepth with
  | zero => simp [levels, resolveWithin] at resolved
  | succ levels =>
    obtain ⟨-, home', d', args', located, -, rfl⟩ := resolveWithin_eq_ok.mp (levels ▸ resolved)
    rw [element_applySuffixes] at element
    cases element
    exact located

/-- A name that was read and resolves spells the names of its definition, one for one, just when
none of its own names holds a plus sign. Two such names of one definition have the same path. -/
theorem resolve_spells {text : String} {depth : Nat} (built : r.snapshot.Built)
    (read : parse text depth = .ok t) (resolved : r.resolve t = .ok type)
    (element : type.element = .named home d args) :
    (t.path.map Segment.metadataName = d.spelledPath ↔ ∀ s ∈ t.path, '+' ∉ s.name.toList) ∧
    ∀ {r' : Resolver} {text' : String} {depth' : Nat} {t' : QualifiedName} {type' : ClosedType}
      {home' : ModuleId} {args' : List ClosedType}, parse text' depth' = .ok t' →
      r'.resolve t' = .ok type' → type'.element = .named home' d args' →
      (∀ s ∈ t.path, '+' ∉ s.name.toList) → (∀ s ∈ t'.path, '+' ∉ s.name.toList) →
      t.path = t'.path := by
  obtain ⟨m, loaded, -, defined, named, counted⟩ := locate_named (resolve_located resolved element)
  have declared := built.declared m loaded d defined
  obtain ⟨_, shaped⟩ := (readable_of_parse read).shaped
  refine ⟨path_spelled declared shaped.someName named, ?_⟩
  intro r' text' depth' t' type' home' args' read' resolved' element' plusless plusless'
  obtain ⟨-, -, -, -, named', counted'⟩ := locate_named (resolve_located resolved' element')
  obtain ⟨_, shaped'⟩ := (readable_of_parse read').shaped
  exact path_unique declared shaped shaped' counted counted'
    ((path_spelled declared shaped.someName named).mpr plusless)
    ((path_spelled declared shaped'.someName named').mpr plusless')

/-- A name without arguments and suffixes that is read from a text. -/
theorem parse_plain {text : String} {path : List Segment} {origin : Origin}
    (read : (parse text).toOption.any (fun t => decide (t.path = path ∧ t.args.isEmpty = true ∧
      t.suffixes = [] ∧ t.origin = origin)) = true) : parse text = .ok ⟨path, [], [], origin⟩ := by
  obtain ⟨⟨_, args, _, _⟩, parsed, rfl, empty, rfl, rfl⟩ := exists_ok_of_any read
  obtain rfl := List.isEmpty_iff.mp empty
  exact parsed

/-- A core library and a module with a class and another class nested in it. -/
def nestedModules : Snapshot :=
  (Snapshot.empty.add (.build (CoreLibrary.identity ⟨4, 0, 0, 0⟩) CoreLibrary.declarations)).add
    (.build ⟨"App", ⟨1, 0, 0, 0⟩, none, none⟩
      [{ fullName := "Ns.A", kind := .classType }, { fullName := "Ns.A+B", kind := .classType }])

/-- The nested class. -/
def nestedClass : TypeDefinition :=
  TypeDeclaration.define { fullName := "Ns.A+B", kind := .classType } (.typeDefinition 2)

theorem nestedClass_spelled : ∃ t t', parse "Ns.A+ B, app" = .ok t ∧ parse "Ns.A+\\B" = .ok t' ∧
    t.path.map Segment.metadataName = nestedClass.spelledPath ∧ t.path = t'.path := by
  have built : nestedModules.Built := .add (.add .empty _ _) _ _
  have read : parse "Ns.A+ B, app" =
      .ok ⟨[⟨"Ns.A", 0⟩, ⟨"B", 0⟩], [], [], .assembly (.named "app")⟩ :=
    parse_plain (by decide +kernel)
  have resolved : ({ snapshot := nestedModules } : Resolver).resolve
      ⟨[⟨"Ns.A", 0⟩, ⟨"B", 0⟩], [], [], .assembly (.named "app")⟩ =
      .ok (.named ⟨1⟩ nestedClass []) := rfl
  have read' : parse "Ns.A+\\B" = .ok ⟨[⟨"Ns.A", 0⟩, ⟨"B", 0⟩], [], [], .unqualified⟩ :=
    parse_plain (by decide +kernel)
  have resolved' : ({ snapshot := nestedModules, contextModule := some ⟨1⟩ } : Resolver).resolve
      ⟨[⟨"Ns.A", 0⟩, ⟨"B", 0⟩], [], [], .unqualified⟩ = .ok (.named ⟨1⟩ nestedClass []) := rfl
  obtain ⟨spelled, unique⟩ := resolve_spells built read resolved rfl
  exact ⟨_, _, read, read', spelled.mpr (by decide),
    unique read' resolved' rfl (by decide) (by decide)⟩

/-- With its plus sign escaped the text is one name, but the nested class is found. -/
theorem escaped_plus_finds_nested :
    nestedModules.Built ∧ ∃ t, parse "Ns.A\\+B, App" = .ok t ∧
      ({ snapshot := nestedModules } : Resolver).resolve t = .ok (.named ⟨1⟩ nestedClass []) ∧
      t.path.length = 1 ∧ nestedClass.segments.length = 2 :=
  ⟨.add (.add .empty _ _) _ _, ⟨[⟨"Ns.A+B", 0⟩], [], [], .assembly (.named "App")⟩,
    parse_plain (by decide +kernel), rfl, rfl, by decide⟩

end Resolver

end QualifiedName

end DebugExpr
