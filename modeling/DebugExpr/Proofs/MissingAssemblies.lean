import DebugExpr.Proofs.Requests
import DebugExpr.Proofs.ResolutionOutcomes
import DebugExpr.Proofs.SampleScope

/-! Missing assemblies. Two searches report assemblies as missing: that for the assembly of a name in
the inspection context, by the policy, and that for the assembly of a signature, by its simple name.
Either one reports an assembly only if no loaded module is accepted for it. -/
namespace DebugExpr
open Metadata DebugExpr.Bound QualifiedName

/-- No module of the snapshot is accepted for an assembly that the error reports as missing. -/
def Unloaded (s : Snapshot) (policy : Assembly.Policy) (e : Error) : Prop :=
  ∀ reference ∈ e.missingAssemblies, ∀ m ∈ s.modules, policy.accepts reference m.identity = false

theorem Unloaded.of_plain {s : Snapshot} {policy : Assembly.Policy} {e : Error}
    (plain : e.IsPlain) : Unloaded s policy e := by
  intro reference missing
  rw [plain] at missing
  cases missing

/-- Both settings compare simple names at least. -/
theorem accepts_sameName {matching : Assembly.Matching} {identity : Assembly.Identity}
    (reference : Assembly.Reference) (accepts : matching.accepts reference identity = true) :
    Text.sameCaseless reference.name identity.name = true := by
  cases matching with
  | nameOnly => exact accepts
  | exact =>
    simp only [Assembly.Matching.accepts, Assembly.Reference.matchesExactly, Bool.and_eq_true]
      at accepts
    exact accepts.1.1.1

theorem locate_unloaded {s : Snapshot} (matching : Assembly.Matching) (scope : ModuleId)
    (assembly : Option String) (name : String) :
    Raises (Unloaded s (.ofMatching matching)) (s.locate scope assembly name) := by
  unfold Snapshot.locate
  split
  · next assembly =>
    split
    · next nowhere =>
      refine raises_error fun reference missing m member => ?_
      obtain rfl := List.mem_singleton.mp missing
      have other := List.find?_eq_none.mp nowhere m member
      refine Bool.eq_false_iff.mpr fun accepts => other (Text.sameCaseless_symm ?_)
      exact accepts_sameName (.named assembly) accepts
    · split
      · exact raises_ok
      · exact raises_error (.of_plain rfl)
  · split
    · exact raises_ok
    · exact raises_error (.of_plain rfl)

theorem resolveType_unloaded (r : Resolver) (t : QualifiedName) :
    Raises (Unloaded r.snapshot r.matching) (r.resolveType t) := by
  intro e failed
  have decides : r.Decides t.nodes (Mirrors t) (r.resolve t) := Resolver.resolveWithin_decides rfl t
  unfold Resolver.resolveType at failed
  cases resolved : r.resolve t with
  | ok type =>
    rw [resolved] at failed
    cases failed
  | error failure =>
    rw [resolved] at failed decides
    cases failed
    cases failure with
    | unsupported name => exact .of_plain rfl
    | missing references =>
      obtain ⟨-, rfl, -⟩ := decides
      intro reference missing m member
      obtain ⟨node, -, unaccepted⟩ := List.mem_filterMap.mp (List.mem_eraseDups.mp missing)
      unfold Resolver.missing? at unaccepted
      split at unaccepted
      · simp only [List.any_eq_true, Option.ite_none_left_eq_some, Option.some.injEq] at unaccepted
        obtain ⟨nobody, rfl⟩ := unaccepted
        exact Bool.eq_false_iff.mpr fun accepts => nobody ⟨m, member, accepts⟩
      · cases unaccepted
      · cases unaccepted

namespace Pseudo
variable {r : Resolver} {context : Context}

theorem entryType_unloaded (entry : Entry) :
    Raises (Unloaded r.snapshot r.matching) (entryType r entry) := by
  cases entry with
  | handle home token =>
    simp only [entryType, handleType]
    split
    · exact raises_error (.of_plain rfl)
    split
    · exact raises_ok
    · exact raises_error (.of_plain rfl)
  | reference name => exact resolveType_unloaded r name
  | qualifiedName text =>
    simp only [entryType]
    split
    · exact resolveType_unloaded r _
    · exact raises_error (.of_plain rfl)

theorem bindKind_unloaded (lexeme : String) (kind : Kind) (returned : String) :
    Raises (Unloaded r.snapshot r.matching) (bindKind r context lexeme kind returned) := by
  refine Raises.bind (raises_mapError fun _ => .of_plain rfl) fun accessorType => ?_
  dsimp only
  split
  · exact (entryType_unloaded _).bind fun _ => raises_ok
  · exact raises_ok

theorem bind_unloaded (lexeme : String) :
    Raises (Unloaded r.snapshot r.matching) (bind r context lexeme) := by
  unfold bind
  split
  · unfold bindDeclared
    split
    · exact raises_ok
    · exact (entryType_unloaded _).bind fun _ => raises_ok
  · split
    · exact bindKind_unloaded _ _ _
    · exact raises_ok

end Pseudo

/-- An assembly that is reported as missing is one for which no loaded module is accepted. -/
theorem Request.missing_unloaded (s : Scope) (request : Request) :
    Raises (Unloaded s.snapshot (.ofMatching s.config.matching)) (request.compile s) := by
  have follows : Follows (Unloaded s.snapshot (.ofMatching s.config.matching)) (fun _ => False)
      True s s.snapshot s.context :=
    { agree :=
        { core := rfl
          locate := fun _ assembly name => .of_raises (locate_unloaded _ _ assembly name)
          plain := .of_plain
          bound := id }
      frame := .inl trivial
      home := .inl trivial }
  refine (request.compile_tracks follows fun e parsed sub _ => ⟨fun name _ _ => ?_, ?_⟩).raises
  · cases request <;> exact .of_raises (Pseudo.bind_unloaded name)
  · cases request <;> exact fun _ _ => rfl

theorem identity_mem_foldl_add (s : Snapshot) {added : List Module} {m : Module}
    (member : m ∈ added) : ∃ m' ∈ (added.foldl Snapshot.add s).modules, m'.identity = m.identity := by
  have kept : ∀ (added : List Module) (s : Snapshot),
      s.modules ⊆ (added.foldl Snapshot.add s).modules := by
    intro added
    induction added with
    | nil => exact fun _ => List.Subset.refl _
    | cons first rest ih =>
      exact fun s => List.Subset.trans (List.subset_append_left _ _) (ih (s.add first))
  induction added generalizing s with
  | nil => cases member
  | cons first rest ih =>
    rcases List.mem_cons.mp member with rfl | later
    · exact ⟨_, kept rest (s.add m) (List.mem_append_right _ (List.mem_singleton_self _)), rfl⟩
    · exact ih (s.add first) later

/-- An assembly that is reported as missing is loaded in no module that is accepted for it, and it
is not reported again after such a module is loaded, though others may be. -/
theorem Request.missing_once {s : Scope} {request : Request} {e e' : Error} {added : List Module}
    (failed : request.compile s = .error e)
    (mended : ∀ reference ∈ e.missingAssemblies,
      ∃ m ∈ added, s.config.matching.accepts reference m.identity = true)
    (again : request.compile { s with snapshot := added.foldl Snapshot.add s.snapshot } =
      .error e') :
    ∀ reference ∈ e.missingAssemblies,
      (∀ m ∈ s.snapshot.modules, s.config.matching.accepts reference m.identity = false) ∧
        reference ∉ e'.missingAssemblies := by
  intro reference missing
  refine ⟨request.missing_unloaded s e failed reference missing, fun missingAgain => ?_⟩
  obtain ⟨m, member, accepts⟩ := mended reference missing
  obtain ⟨m', loaded, same⟩ := identity_mem_foldl_add s.snapshot member
  have unaccepted := request.missing_unloaded _ e' again reference missingAgain m' loaded
  rw [same] at unaccepted
  exact Bool.false_ne_true (unaccepted.symm.trans accepts)

namespace Sample

/-- A class whose base class is of another assembly. -/
def node : TypeDefinition :=
  TypeDeclaration.define
    { fullName := "Lib.Node", kind := .classType, base := some (.named (some "Base") "Base.Node" []) }
    (.typeDefinition 1)

def lib : Module :=
  .ofDefinitions ⟨"Lib", ⟨1, 0, 0, 0⟩, none, none⟩ [node]

/-- An object of the class is numbered. -/
def numbered : Scope :=
  let stopped := scope [] []
  { stopped with context := stopped.context.insert "1" (.qualifiedName "Lib.Node, Lib") }

end Sample

/-- The assembly of the object's type is missing first, and then that of its base class. -/
theorem missing_base_once :
    Request.compile Sample.numbered (.expression "$1.Next" {}) =
      .error (.missingAssembly [.named "Lib"]) ∧
    Request.compile { Sample.numbered with
        snapshot := [Sample.lib].foldl Snapshot.add Sample.numbered.snapshot }
      (.expression "$1.Next" {}) = .error (.missingAssembly [.named "Base"]) ∧
    ∀ reference ∈ (Error.missingAssembly [.named "Lib"]).missingAssemblies,
      (∀ m ∈ Sample.numbered.snapshot.modules,
        Sample.numbered.config.matching.accepts reference m.identity = false) ∧
      reference ∉ (Error.missingAssembly [.named "Base"]).missingAssemblies := by
  have failed : Request.compile Sample.numbered (.expression "$1.Next" {}) =
      .error (.missingAssembly [.named "Lib"]) :=
    eq_error_of_map (f := fun _ => ()) (by decide +kernel)
  have again : Request.compile { Sample.numbered with
        snapshot := [Sample.lib].foldl Snapshot.add Sample.numbered.snapshot }
      (.expression "$1.Next" {}) = .error (.missingAssembly [.named "Base"]) :=
    eq_error_of_map (f := fun _ => ()) (by decide +kernel)
  refine ⟨failed, again, Request.missing_once failed ?_ again⟩
  simp only [Error.missingAssemblies, List.forall_mem_singleton]
  exact ⟨Sample.lib, List.mem_singleton_self _, by decide +kernel⟩

end DebugExpr
