import DebugExpr.Proofs.ResolutionOutcomes
import DebugExpr.Proofs.ResolvedNames

/-! Signatures as names. A signature without generic parameters states a type as a name does, and
both are looked for: a signature in the first module of its assembly's simple name, a name in all
modules of that simple name. They give the same type as long as the first module has the
definition. -/
namespace DebugExpr

namespace Metadata
variable {s : Snapshot} {scope : ModuleId} {typeArgs methodArgs : List ClosedType}
  {type : ClosedType}

namespace Signature

/-- Where a signature without or with an assembly is looked for. -/
def origin : Option String → QualifiedName.Origin
  | none => .unqualified
  | some assembly => .assembly (.named assembly)

mutual

/-- The name that a signature without generic parameters states. -/
def toName? : Signature → Option QualifiedName
  | .named assembly name args => (toNames? args).map fun args =>
    ⟨(QualifiedName.ofFullName name).path, args, [], origin assembly⟩
  | .array element rank => (toName? element).map fun t =>
    { t with suffixes := t.suffixes ++ [.array rank] }
  | .typeParameter _ | .methodParameter _ => none

def toNames? : List Signature → Option (List QualifiedName)
  | [] => some []
  | signature :: rest => (toName? signature).bind fun t => (toNames? rest).map (t :: ·)

end

mutual

/-- The metadata names in a signature. -/
def metadataNames : Signature → List String
  | .named _ name args => name :: metadataNamesAll args
  | .array element _ => metadataNames element
  | .typeParameter _ | .methodParameter _ => []

def metadataNamesAll : List Signature → List String
  | [] => []
  | signature :: rest => metadataNames signature ++ metadataNamesAll rest

end

theorem length_toNames? {signatures : List Signature} {ts : List QualifiedName}
    (stated : toNames? signatures = some ts) : signatures.length = ts.length := by
  induction signatures generalizing ts with
  | nil =>
    cases stated
    rfl
  | cons signature rest ih =>
    obtain ⟨t, -, stated⟩ := Option.bind_eq_some_iff.mp stated
    obtain ⟨ts, statedRest, rfl⟩ := Option.map_eq_some_iff.mp stated
    rw [List.length_cons, List.length_cons, ih statedRest]

end Signature

namespace Snapshot

theorem locate_assembly {assembly name : String} {found : ModuleId × TypeDefinition} :
    s.locate scope (some assembly) name = .ok found ↔
      ∃ m, s.find? assembly = some m ∧ typeIn? name m = some found := by
  rw [locate]
  cases s.find? assembly with
  | none => simp
  | some m => cases typed : typeIn? name m <;> simp [typed]

theorem locate_unqualified {name : String} {found : ModuleId × TypeDefinition} :
    s.locate scope none name = .ok found ↔
      ((s.get? scope).bind (typeIn? name)).or (s.coreLibrary?.bind (typeIn? name)) =
        some found := by
  rw [locate]
  cases ((s.get? scope).bind (typeIn? name)).or (s.coreLibrary?.bind (typeIn? name)) <;> simp

theorem bind_named {assembly : Option String} {name : String} {args : List Signature} :
    s.bind scope typeArgs methodArgs (.named assembly name args) = .ok type ↔
      ∃ home d types, s.locate scope assembly name = .ok (home, d) ∧
        d.genericParams.length = args.length ∧
        s.bindAll scope typeArgs methodArgs args = .ok types ∧ type = .named home d types := by
  rw [Snapshot.bind, bind_eq_ok]
  constructor
  · rintro ⟨⟨home, d⟩, located, bound⟩
    by_cases counted : d.genericParams.length = args.length
    · simp only [counted, ne_eq, not_true_eq_false, if_false, bind_eq_ok, pure_eq_ok] at bound
      obtain ⟨types, bound, rfl⟩ := bound
      exact ⟨home, d, types, located, counted, bound, rfl⟩
    · simp [counted] at bound
  · rintro ⟨home, d, types, located, counted, bound, rfl⟩
    refine ⟨(home, d), located, ?_⟩
    simp [counted, bound]

theorem bind_array {element : Signature} {rank : Nat} :
    s.bind scope typeArgs methodArgs (.array element rank) = .ok type ↔
      ∃ inner, s.bind scope typeArgs methodArgs element = .ok inner ∧ type = .array inner rank := by
  simp only [Snapshot.bind, bind_eq_ok, pure_eq_ok, @eq_comm _ type]

theorem bindAll_cons {signature : Signature} {rest : List Signature} {types : List ClosedType} :
    s.bindAll scope typeArgs methodArgs (signature :: rest) = .ok types ↔
      ∃ first further, s.bind scope typeArgs methodArgs signature = .ok first ∧
        s.bindAll scope typeArgs methodArgs rest = .ok further ∧ types = first :: further := by
  simp only [bindAll, bind_eq_ok, pure_eq_ok, exists_and_left, @eq_comm _ types]

end Snapshot

end Metadata

namespace QualifiedName
open Metadata Text

/-- The first loaded module of the simple name that the name states has its definition. -/
def FirstDefines (s : Snapshot) (t : QualifiedName) : Prop :=
  ∀ reference, t.origin = .assembly reference →
    ∃ m, s.find? reference.name = some m ∧ (m.typeNamed? t.fullName).isSome = true

namespace Resolution
variable {α : Type} {x : Resolution α} {rest : List (Resolution α)} {as : List α}

theorem all_cons_eq_ok : all (x :: rest) = .ok as ↔
    ∃ a further, x = .ok a ∧ all rest = .ok further ∧ as = a :: further := by
  constructor
  · intro resolved
    obtain ⟨⟨a, further⟩, both, rfl⟩ := map_eq_ok resolved
    obtain ⟨first, later⟩ := both_eq_ok both
    exact ⟨a, further, first, later, rfl⟩
  · rintro ⟨a, further, rfl, later, rfl⟩
    rw [all, later]
    rfl

end Resolution

namespace Resolver
variable {r : Resolver} {s : Snapshot} {scope : ModuleId} {t : QualifiedName} {type : ClosedType}
  {typeArgs methodArgs : List ClosedType}

/-- The resolver of the modules that a scope sees, as signatures are bound. -/
def forScope (s : Snapshot) (scope : ModuleId) (maxDepth : Nat) : Resolver where
  snapshot := s
  contextModule := some scope
  matching := .nameOnly
  maxDepth := maxDepth

/-- With an assembly all modules of its simple name are searched, in load order. -/
theorem candidates_assembly {maxDepth : Nat} {assembly : String} {modules : List Module} :
    (forScope s scope maxDepth).candidates (.assembly (.named assembly)) = .ok modules ↔
      modules ≠ [] ∧ s.named assembly = modules := by
  have accepted : (s.modules.filter fun m =>
      Assembly.Policy.nameOnly.accepts (.named assembly) m.identity) = s.named assembly := by
    refine List.filter_congr fun m _ => ?_
    rw [Bool.eq_iff_iff]
    exact ⟨sameCaseless_symm, sameCaseless_symm⟩
  have unversioned (m : Module) :
      ((Assembly.Reference.named assembly).version == some m.identity.version) = false := rfl
  rw [candidates]
  simp only [forScope, accepted]
  cases s.named assembly with
  | nil => simp
  | cons m rest =>
    have all : (m :: rest).filter (not ∘ fun _ => false) = m :: rest :=
      List.filter_eq_self.mpr fun _ _ => rfl
    simp only [List.partition_eq_filter_filter, unversioned, List.filter_false, all,
      List.nil_append, Except.ok.injEq]
    constructor
    · rintro rfl
      exact ⟨List.cons_ne_nil _ _, rfl⟩
    · exact And.right

/-- Without an assembly the scope comes first and then the core library. -/
theorem findSome?_unqualified {maxDepth : Nat} {modules : List Module} {α : Type}
    {f : Module → Option α} (searched :
      (forScope s scope maxDepth).candidates .unqualified = .ok modules) :
    modules.findSome? f = ((s.get? scope).bind f).or (s.coreLibrary?.bind f) := by
  obtain rfl := Except.ok.inj searched
  simp only [forScope, Option.bind_some]
  rw [List.findSome?_append]
  cases own : s.get? scope with
  | none => cases s.coreLibrary? <;> simp
  | some m =>
    cases core : s.coreLibrary? with
    | none => simp
    | some c =>
      by_cases same : m.id = c.id
      · have loaded := Snapshot.get?_id (Snapshot.get?_mem own)
        have loadedCore := Snapshot.get?_id (List.mem_of_find?_eq_some core)
        rw [same, loadedCore] at loaded
        cases loaded
        simp
      · simp [same]

/-- A last array suffix is the outermost array. -/
theorem resolveWithin_array {levels rank : Nat} :
    r.resolveWithin levels { t with suffixes := t.suffixes ++ [.array rank] } = .ok type ↔
      ∃ inner, r.resolveWithin levels t = .ok inner ∧ type = .array inner rank := by
  cases levels with
  | zero => simp [resolveWithin]
  | succ levels =>
    have direct : ({ t with suffixes := t.suffixes ++ [.array rank] } : QualifiedName).isIndirect =
        t.isIndirect := by
      simp [isIndirect]
    have wrapped (inner : ClosedType) : applySuffixes (t.suffixes ++ [.array rank]) inner =
        .array (applySuffixes t.suffixes inner) rank := by
      simp [applySuffixes]
    simp only [resolveWithin_eq_ok, locate_iff, direct, wrapped]
    constructor
    · rintro ⟨direct, home, d, args, located, all, rfl⟩
      exact ⟨_, ⟨direct, home, d, args, located, all, rfl⟩, rfl⟩
    · rintro ⟨inner, ⟨direct, home, d, args, located, all, rfl⟩, rfl⟩
      exact ⟨direct, home, d, args, located, all, rfl⟩

/-- One name is looked for alike, but for the modules behind the first of an assembly. -/
theorem locate_agrees (scope : ModuleId) (maxDepth : Nat) {assembly : Option String}
    (origin : t.origin = Signature.origin assembly) (home : ModuleId) (d : TypeDefinition) :
    s.locate scope assembly t.fullName = .ok (home, d) ∧
        d.genericParams.length = t.args.length ↔
      (forScope s scope maxDepth).locate t = .ok (home, d) ∧ FirstDefines s t := by
  rw [locate_iff, FirstDefines, origin]
  cases assembly with
  | none =>
    rw [Snapshot.locate_unqualified]
    constructor
    · rintro ⟨found, counted⟩
      refine ⟨⟨_, rfl, ?_, counted⟩, nofun⟩
      rw [findSome?_unqualified rfl, found]
    · rintro ⟨⟨modules, searched, found, counted⟩, -⟩
      exact ⟨(findSome?_unqualified searched).symm.trans found, counted⟩
  | some assembly =>
    have first : s.find? assembly = (s.named assembly).head? := List.head?_filter.symm
    have reference : (∀ reference, Signature.origin (some assembly) = .assembly reference →
        ∃ m, s.find? reference.name = some m ∧ (m.typeNamed? t.fullName).isSome = true) ↔
        ∃ m, s.find? assembly = some m ∧ (m.typeNamed? t.fullName).isSome = true := by
      simp [Signature.origin, Assembly.Reference.named]
    rw [reference, first, Signature.origin]
    simp only [Snapshot.locate_assembly, candidates_assembly, first]
    cases s.named assembly with
    | nil => simp
    | cons m rest =>
      simp only [List.head?_cons, Option.some.injEq, exists_eq_left']
      constructor
      · rintro ⟨found, counted⟩
        obtain ⟨_, named, -⟩ := Option.map_eq_some_iff.mp found
        refine ⟨⟨m :: rest, ⟨List.cons_ne_nil _ _, rfl⟩, ?_, counted⟩, ?_⟩
        · rw [List.findSome?_cons, found]
        · rw [named, Option.isSome_some]
      · rintro ⟨⟨modules, ⟨-, rfl⟩, found, counted⟩, defined⟩
        obtain ⟨d', named⟩ := Option.isSome_iff_exists.mp defined
        have typed : Snapshot.typeIn? t.fullName m = some (m.id, d') := by
          rw [Snapshot.typeIn?, named, Option.map_some]
        rw [List.findSome?_cons, typed] at found
        exact ⟨typed.trans found, counted⟩

/-- All assemblies that the tree states have the definitions in their first module. -/
def AllFirst (s : Snapshot) (nodes : List (Nat × QualifiedName)) : Prop :=
  ∀ node ∈ nodes, FirstDefines s node.2

variable {maxDepth levels depth : Nat}

theorem allFirst_append {nodes nodes' : List (Nat × QualifiedName)} :
    AllFirst s (nodes ++ nodes') ↔ AllFirst s nodes ∧ AllFirst s nodes' :=
  List.forall_mem_append

/-- The step for a named signature, given that the searches agree on its arguments. -/
theorem named_agrees {assembly : Option String} {name : String} {args : List Signature}
    {ts : List QualifiedName} (canonical : (ofFullName name).fullName = name)
    (counts : args.length = ts.length)
    (further : ∀ types, s.bindAll scope typeArgs methodArgs args = .ok types ↔
      Resolution.all (ts.map ((forScope s scope maxDepth).resolveWithin levels)) = .ok types ∧
        AllFirst s (nodesFromAll (depth + 1) ts)) :
    s.bind scope typeArgs methodArgs (.named assembly name args) = .ok type ↔
      (forScope s scope maxDepth).resolveWithin (levels + 1)
          ⟨(ofFullName name).path, ts, [], Signature.origin assembly⟩ = .ok type ∧
        AllFirst s (nodesFrom depth
          ⟨(ofFullName name).path, ts, [], Signature.origin assembly⟩) := by
  have located := locate_agrees (s := s) scope maxDepth
    (t := ⟨(ofFullName name).path, ts, [], Signature.origin assembly⟩) rfl
  have same : fullName ⟨(ofFullName name).path, ts, [], Signature.origin assembly⟩ = name :=
    canonical
  simp only [same] at located
  have root : AllFirst s [(depth, ⟨(ofFullName name).path, ts, [], Signature.origin assembly⟩)] ↔
      FirstDefines s ⟨(ofFullName name).path, ts, [], Signature.origin assembly⟩ :=
    List.forall_mem_singleton
  rw [Snapshot.bind_named, resolveWithin_eq_ok, nodesFrom_eq, allFirst_append, root]
  constructor
  · rintro ⟨home, d, types, found, counted, bound, rfl⟩
    obtain ⟨resolved, defined⟩ := (located home d).mp ⟨found, counted.trans counts⟩
    obtain ⟨all, allFirst⟩ := (further types).mp bound
    exact ⟨⟨rfl, home, d, types, resolved, all, rfl⟩, defined, allFirst⟩
  · rintro ⟨⟨-, home, d, types, resolved, all, rfl⟩, defined, allFirst⟩
    obtain ⟨found, counted⟩ := (located home d).mpr ⟨resolved, defined⟩
    exact ⟨home, d, types, found, counted.trans counts.symm,
      (further types).mpr ⟨all, allFirst⟩, rfl⟩

/-- The step for an array. The brackets change the name at the root of the tree, but none of the
names that are looked for. -/
theorem array_agrees {element : Signature} {rank : Nat} {t : QualifiedName}
    (inner : ∀ type, s.bind scope typeArgs methodArgs element = .ok type ↔
      (forScope s scope maxDepth).resolveWithin levels t = .ok type ∧
        AllFirst s (t.nodesFrom depth)) :
    s.bind scope typeArgs methodArgs (.array element rank) = .ok type ↔
      (forScope s scope maxDepth).resolveWithin levels
          { t with suffixes := t.suffixes ++ [.array rank] } = .ok type ∧
        AllFirst s (nodesFrom depth { t with suffixes := t.suffixes ++ [.array rank] }) := by
  have root : AllFirst s (nodesFrom depth { t with suffixes := t.suffixes ++ [.array rank] }) ↔
      AllFirst s (t.nodesFrom depth) := by
    simp only [AllFirst, nodesFrom_eq, List.forall_mem_append, List.forall_mem_singleton]
    rfl
  rw [Snapshot.bind_array, resolveWithin_array, root]
  constructor
  · rintro ⟨element, bound, rfl⟩
    obtain ⟨resolved, allFirst⟩ := (inner element).mp bound
    exact ⟨⟨element, resolved, rfl⟩, allFirst⟩
  · rintro ⟨⟨element, resolved, rfl⟩, allFirst⟩
    exact ⟨element, (inner element).mpr ⟨resolved, allFirst⟩, rfl⟩

mutual

/-- Both searches go down a signature and its name in step. As many levels are left as the tree is
deep. -/
theorem bind_agrees : (signature : Signature) → {levels depth : Nat} → {t : QualifiedName} →
    signature.toName? = some t →
    (∀ name ∈ signature.metadataNames, (ofFullName name).fullName = name) →
    (∀ node ∈ t.nodesFrom depth, node.1 < levels + depth) → ∀ type,
    s.bind scope typeArgs methodArgs signature = .ok type ↔
      (forScope s scope maxDepth).resolveWithin levels t = .ok type ∧ AllFirst s (t.nodesFrom depth)
  | .named assembly name args, levels, depth, t, stated, canonical, within, type => by
    obtain ⟨ts, statedArgs, rfl⟩ := Option.map_eq_some_iff.mp stated
    obtain ⟨canonical, canonicalArgs⟩ := List.forall_mem_cons.mp canonical
    rw [nodesFrom_eq, List.singleton_append, List.forall_mem_cons] at within
    obtain ⟨levels, rfl⟩ : ∃ below, levels = below + 1 := ⟨levels - 1, by omega⟩
    exact named_agrees canonical (Signature.length_toNames? statedArgs) <|
      bindAll_agrees args statedArgs canonicalArgs fun node member => by
        have := within.2 node member
        omega
  | .array element rank, levels, depth, t, stated, canonical, within, type => by
    obtain ⟨inner, statedElement, rfl⟩ := Option.map_eq_some_iff.mp stated
    refine array_agrees <| bind_agrees element statedElement canonical ?_
    rw [nodesFrom_eq, List.singleton_append, List.forall_mem_cons] at within ⊢
    exact within
  | .typeParameter _, _, _, _, stated, _, _, _ => nomatch stated
  | .methodParameter _, _, _, _, stated, _, _, _ => nomatch stated

theorem bindAll_agrees : (signatures : List Signature) → {levels depth : Nat} →
    {ts : List QualifiedName} → Signature.toNames? signatures = some ts →
    (∀ name ∈ Signature.metadataNamesAll signatures, (ofFullName name).fullName = name) →
    (∀ node ∈ nodesFromAll depth ts, node.1 < levels + depth) → ∀ types,
    s.bindAll scope typeArgs methodArgs signatures = .ok types ↔
      Resolution.all (ts.map ((forScope s scope maxDepth).resolveWithin levels)) = .ok types ∧
        AllFirst s (nodesFromAll depth ts)
  | [], levels, depth, ts, stated, canonical, within, types => by
    cases stated
    simp [Snapshot.bindAll, Resolution.all, nodesFromAll, AllFirst]
  | signature :: rest, levels, depth, ts, stated, canonical, within, types => by
    obtain ⟨t, statedFirst, statedMore⟩ := Option.bind_eq_some_iff.mp stated
    obtain ⟨ts, statedRest, rfl⟩ := Option.map_eq_some_iff.mp statedMore
    obtain ⟨canonicalFirst, canonicalRest⟩ := List.forall_mem_append.mp canonical
    obtain ⟨withinFirst, withinRest⟩ := List.forall_mem_append.mp within
    have first := bind_agrees signature statedFirst canonicalFirst withinFirst
    have further := bindAll_agrees rest statedRest canonicalRest withinRest
    rw [List.map_cons, Resolution.all_cons_eq_ok, Snapshot.bindAll_cons, nodesFromAll,
      allFirst_append]
    constructor
    · rintro ⟨type, types, bound, boundRest, rfl⟩
      obtain ⟨resolved, allFirst⟩ := (first type).mp bound
      obtain ⟨resolvedRest, allFirstRest⟩ := (further types).mp boundRest
      exact ⟨⟨type, types, resolved, resolvedRest, rfl⟩, allFirst, allFirstRest⟩
    · rintro ⟨⟨type, types, resolved, resolvedRest, rfl⟩, allFirst, allFirstRest⟩
      exact ⟨type, types, (first type).mpr ⟨resolved, allFirst⟩,
        (further types).mpr ⟨resolvedRest, allFirstRest⟩, rfl⟩

end

/-- A signature without generic parameters binds to a type just when its name resolves to that type
and each assembly in it has the definition in its first module. -/
theorem bind_iff_resolve (maxDepth : Nat) {signature : Signature}
    (stated : signature.toName? = some t)
    (canonical : ∀ name ∈ signature.metadataNames, (ofFullName name).fullName = name)
    (within : ∀ node ∈ t.nodes, node.1 ≤ maxDepth) :
    s.bind scope typeArgs methodArgs signature = .ok type ↔
      (forScope s scope maxDepth).resolve t = .ok type ∧
        ∀ node ∈ t.nodes, FirstDefines s node.2 :=
  bind_agrees signature stated canonical
    (fun node member => Nat.lt_succ_of_le (within node member)) type

/-- A library that is loaded in two versions, with a type in each. -/
def twoVersions : Snapshot :=
  ((Snapshot.empty.add (.build (CoreLibrary.identity ⟨4, 0, 0, 0⟩) CoreLibrary.declarations)).add
    (.build (.simple "Lib" ⟨1, 0, 0, 0⟩) [{ fullName := "Box\x601", kind := .classType }])).add
    (.build (.simple "Lib" ⟨2, 0, 0, 0⟩) [{ fullName := "New", kind := .classType }])

/-- The type in the first version. -/
def box : TypeDefinition :=
  TypeDeclaration.define { fullName := "Box\x601", kind := .classType } (.typeDefinition 1)

/-- The type in the second version. -/
def newClass : TypeDefinition :=
  TypeDeclaration.define { fullName := "New", kind := .classType } (.typeDefinition 1)

/-- The root class. -/
def objectClass : TypeDefinition :=
  TypeDeclaration.define
    { fullName := "System.Object", kind := .classType, primitive := some .object }
    (.typeDefinition 1)

theorem boxes_bind : twoVersions.bind ⟨0⟩ [] []
    (.array (.named (some "lib") "Box\x601" [.plain "System.Object"]) 2) =
      .ok (.array (.named ⟨1⟩ box [.named ⟨0⟩ objectClass []]) 2) := by
  refine (bind_iff_resolve 2 (t :=
    ⟨[⟨"Box", 1⟩], [⟨[⟨"System.Object", 0⟩], [], [], .unqualified⟩], [.array 2],
      .assembly (.named "lib")⟩) rfl (by decide +kernel) (by decide)).mpr ⟨rfl, ?_⟩
  simp only [nodes, nodesFrom, nodesFromAll, List.append_nil, List.forall_mem_cons]
  refine ⟨?_, ?_, List.forall_mem_nil _⟩ <;> rintro _ ⟨⟩
  exact ⟨_, rfl, rfl⟩

/-- The second version is searched for the name, but not for the signature. -/
theorem second_version_not_bound : ∃ t, (Signature.named (some "Lib") "New" []).toName? = some t ∧
    (ofFullName "New").fullName = "New" ∧ (∀ node ∈ t.nodes, node.1 ≤ defaultMaxDepth) ∧
    twoVersions.bind ⟨0⟩ [] [] (.named (some "Lib") "New" []) = .error (.typeNotFound "New") ∧
    (forScope twoVersions ⟨0⟩ defaultMaxDepth).resolve t = .ok (.named ⟨2⟩ newClass []) :=
  ⟨⟨[⟨"New", 0⟩], [], [], .assembly (.named "Lib")⟩, rfl, rfl, by decide, rfl, rfl⟩

end Resolver

end QualifiedName

end DebugExpr
