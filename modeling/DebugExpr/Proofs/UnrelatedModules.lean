import DebugExpr.Proofs.LoadedTypes
import DebugExpr.Proofs.Requests
import DebugExpr.Proofs.SampleScope

/-! Modules that do not matter to a request. A module is appended behind all others, so that every
search which found something finds the same again. A request that was compiled has searched in vain
only for names in the inspection context, which the policy decides, and for the longer readings of a
dotted name, and a module matters only if it answers one of these. -/
namespace DebugExpr
open Metadata DebugExpr.Bound DebugExpr.Source

namespace Metadata.Snapshot
variable {s : Snapshot} {m : Module}

theorem get?_add {id : ModuleId} (loaded : (s.get? id).isSome) : (s.add m).get? id = s.get? id := by
  obtain ⟨found, loaded⟩ := Option.isSome_iff_exists.mp loaded
  have bound := (List.getElem?_eq_some_iff.mp loaded).1
  exact List.getElem?_append_left bound

theorem get?_add_eq_some {id : ModuleId} {home : Module} (found : s.get? id = some home) :
    (s.add m).get? id = some home := by
  rw [get?_add (by rw [found]; rfl), found]

theorem loads_add {type : ClosedType} (loads : s.Loads type) : (s.add m).Loads type := by
  cases type with
  | named =>
    obtain ⟨home, found, listed⟩ := loads
    exact ⟨home, get?_add_eq_some found, listed⟩
  | array => trivial

theorem holds_add {type : ClosedType} (holds : s.Holds type) : (s.add m).Holds type := by
  induction holds with
  | named loads arity _ ih => exact .named (loads_add loads) arity ih
  | array _ ih => exact .array ih

theorem coreLibrary?_add (core : s.coreLibrary?.isSome) :
    (s.add m).coreLibrary? = s.coreLibrary? := by
  obtain ⟨library, found⟩ := Option.isSome_iff_exists.mp core
  rw [coreLibrary?] at found
  rw [coreLibrary?, coreLibrary?, add, List.find?_append, found, Option.some_or]

theorem modules_add : (s.add m).modules = s.modules ++ [{ m with id := s.nextId }] :=
  rfl

theorem coreType_add (core : s.coreLibrary?.isSome) : (s.add m).coreType = s.coreType := by
  funext name args
  rw [coreType, coreType, coreLibrary?_add core]

end Metadata.Snapshot

/-- The types of a frame stay held. -/
theorem Bound.Frame.Held.add {f : Frame} {s : Snapshot} {m : Module} (held : f.Held s) :
    f.Held (s.add m) where
  containing := Snapshot.holds_add held.containing
  locals slot member := Snapshot.holds_add (held.locals slot member)
  parameters slot member := Snapshot.holds_add (held.parameters slot member)

/-- An error after which another snapshot may do as it likes: that of an unknown name leads on to a
search for types. -/
def IsFinal : Error → Prop
  | .undefinedName _ => False
  | _ => True

namespace Metadata.Snapshot
variable {s : Snapshot} {m : Module}

/-- What a signature of a loaded module names is found again. -/
theorem locate_add (core : s.coreLibrary?.isSome) {scope : ModuleId}
    (loaded : (s.get? scope).isSome) (assembly : Option String) (name : String) :
    Tracks (fun _ => True) IsFinal (s.locate scope assembly name)
      ((s.add m).locate scope assembly name) := by
  cases assembly with
  | none =>
    rw [locate, locate, get?_add loaded, coreLibrary?_add core]
    exact .of_raises fun _ _ => trivial
  | some assembly =>
    cases found : s.find? assembly with
    | none =>
      rw [locate, found]
      exact .free trivial
    | some home =>
      have again : (s.add m).find? assembly = some home := by
        rw [find?] at found
        rw [find?, add, List.find?_append, found, Option.some_or]
      rw [locate, locate, found, again]
      exact .of_raises fun _ _ => trivial

end Metadata.Snapshot

namespace QualifiedName

/-- The assembly that a name states. -/
def Origin.reference? : Origin → Option Assembly.Reference
  | assembly reference => some reference
  | inModule _ | unqualified => none

mutual

/-- The assemblies that a name and the names below it state. -/
def references : QualifiedName → List Assembly.Reference
  | ⟨_, args, _, origin⟩ => origin.reference?.toList ++ referencesOfAll args

def referencesOfAll : List QualifiedName → List Assembly.Reference
  | [] => []
  | t :: rest => references t ++ referencesOfAll rest

end

theorem references_subset {t : QualifiedName} {ts : List QualifiedName} (member : t ∈ ts) :
    t.references ⊆ referencesOfAll ts := by
  induction ts with
  | nil => cases member
  | cons first rest ih =>
    rcases List.mem_cons.mp member with rfl | later
    · exact List.subset_append_left _ _
    · exact List.Subset.trans (ih later) (List.subset_append_right _ _)

/-- A second resolution does as the first one did, unless the first one gave the name up. -/
def Outlasts {α : Type} (x x' : Resolution α) : Prop :=
  x' = x ∨ ∃ name, x = .error (.unsupported name)

namespace Outlasts
variable {α β : Type} {x x' : Resolution α} {y y' : Resolution β}

theorem map (first : Outlasts x x') (f : α → β) : Outlasts (x.map f) (x'.map f) := by
  rcases first with rfl | ⟨name, rfl⟩
  · exact .inl rfl
  · exact .inr ⟨name, rfl⟩

theorem both (first : Outlasts x x') (second : Outlasts y y') :
    Outlasts (x.both y) (x'.both y') := by
  rcases first with rfl | ⟨name, rfl⟩
  · rcases second with rfl | ⟨name, rfl⟩
    · exact .inl rfl
    · rcases x' with ⟨other | references⟩ | a
      · exact .inr ⟨other, rfl⟩
      · exact .inr ⟨name, rfl⟩
      · exact .inr ⟨name, rfl⟩
  · exact .inr ⟨name, rfl⟩

theorem all {resolve resolve' : QualifiedName → Resolution α} {ts : List QualifiedName}
    (each : ∀ t ∈ ts, Outlasts (resolve t) (resolve' t)) :
    Outlasts (.all (ts.map resolve)) (.all (ts.map resolve')) := by
  induction ts with
  | nil => exact .inl rfl
  | cons t rest ih =>
    obtain ⟨first, later⟩ := List.forall_mem_cons.mp each
    exact (first.both (ih later)).map _

end Outlasts

namespace Resolver
variable {r : Resolver} {m : Module}

/-- The resolver after a module is loaded. -/
def adding (r : Resolver) (m : Module) : Resolver :=
  { r with snapshot := r.snapshot.add m }

variable (core : r.snapshot.coreLibrary?.isSome)
  (context : ∀ id ∈ r.contextModule, (r.snapshot.get? id).isSome)
include core context

theorem candidates_add {origin : Origin}
    (unaccepted : ∀ reference ∈ origin.reference?,
      r.matching.accepts reference m.identity = false) :
    Outlasts (r.candidates origin) ((r.adding m).candidates origin) := by
  cases origin with
  | assembly reference =>
    refine .inl ?_
    have other : r.matching.accepts reference m.identity = false := unaccepted reference rfl
    simp [candidates, adding, Snapshot.add, List.filter_append, other]
  | inModule id =>
    cases loaded : r.snapshot.get? id with
    | none =>
      refine .inr ⟨id.display, ?_⟩
      rw [candidates, loaded]
    | some home =>
      refine .inl ?_
      rw [candidates, candidates, adding, Snapshot.get?_add (by simp [loaded])]
  | unqualified =>
    refine .inl ?_
    have same : r.contextModule.bind (r.snapshot.add m).get? = r.contextModule.bind r.snapshot.get? :=
      Option.bind_congr fun id member => Snapshot.get?_add (context id member)
    simp only [candidates, adding, same, Snapshot.coreLibrary?_add core]

theorem locate_add {t : QualifiedName}
    (unaccepted : ∀ reference ∈ t.origin.reference?,
      r.matching.accepts reference m.identity = false) :
    Outlasts (r.locate t) ((r.adding m).locate t) := by
  unfold locate
  rcases candidates_add core context unaccepted with same | ⟨name, failed⟩
  · rw [same]
    exact .inl rfl
  · rw [failed]
    exact .inr ⟨name, rfl⟩

theorem resolveWithin_add {levels : Nat} {t : QualifiedName}
    (unaccepted : ∀ reference ∈ t.references, r.matching.accepts reference m.identity = false) :
    Outlasts (r.resolveWithin levels t) ((r.adding m).resolveWithin levels t) := by
  induction levels generalizing t with
  | zero => exact .inl rfl
  | succ levels ih =>
    obtain ⟨path, args, suffixes, origin⟩ := t
    obtain ⟨own, below⟩ := List.forall_mem_append.mp unaccepted
    rw [resolveWithin, resolveWithin]
    split
    · exact .inl rfl
    · refine .map (.both (locate_add core context ?_) (.all fun arg member => ih ?_)) _
      · exact fun reference stated => own reference (Option.mem_toList.mpr stated)
      · exact fun reference stated => below reference (references_subset member stated)

theorem resolveType_add {t : QualifiedName}
    (unaccepted : ∀ reference ∈ t.references, r.matching.accepts reference m.identity = false) :
    Tracks (fun _ => True) IsFinal (r.resolveType t) ((r.adding m).resolveType t) := by
  have outlasts : Outlasts (r.resolve t) ((r.adding m).resolve t) :=
    resolveWithin_add core context unaccepted
  unfold resolveType
  rcases outlasts with same | ⟨name, failed⟩
  · rw [same]
    exact .of_raises fun _ _ => trivial
  · rw [failed]
    exact .free trivial

end Resolver

end QualifiedName

namespace Pseudo
open QualifiedName

/-- The assemblies that the type of an entry states, if it is a type name that can be read. -/
def Entry.references (maxDepth : Nat) : Entry → List Assembly.Reference
  | handle .. => []
  | reference name => name.references
  | qualifiedName text =>
    match QualifiedName.parse text maxDepth with
    | .ok name => name.references
    | .error _ => []

/-- The assemblies that the types of an inspection context state. -/
def Context.references (maxDepth : Nat) (context : Context) : List Assembly.Reference :=
  context.entries.flatMap fun entry => entry.2.references maxDepth

theorem Context.references_get? {context : Context} {maxDepth : Nat} {key : String} {entry : Entry}
    (found : context.get? key = some entry) :
    entry.references maxDepth ⊆ context.references maxDepth := by
  obtain ⟨listed, finds, rfl⟩ := Option.map_eq_some_iff.mp found
  intro reference stated
  exact List.mem_flatMap.mpr ⟨listed, List.mem_of_find?_eq_some finds, stated⟩

theorem Context.lookup?_references {context : Context} {maxDepth : Nat} {kind : Kind}
    {entry : Entry} (found : context.lookup? kind = some entry) :
    entry.references maxDepth ⊆ context.references maxDepth := by
  obtain ⟨key, -, found⟩ := Option.bind_eq_some_iff.mp found
  exact references_get? found

theorem Context.declared?_references {context : Context} {maxDepth : Nat} {name : String}
    {entry : Entry} (found : context.declared? name = some entry) :
    entry.references maxDepth ⊆ context.references maxDepth := by
  unfold declared? at found
  split at found
  · cases found
  · cases found
  · exact references_get? found

variable {r : Resolver} {m : Module} {context : Context}
  (core : r.snapshot.coreLibrary?.isSome)
  (home : ∀ id ∈ r.contextModule, (r.snapshot.get? id).isSome)
include core home

theorem entryType_add {entry : Entry}
    (unaccepted : ∀ reference ∈ entry.references r.maxDepth,
      r.matching.accepts reference m.identity = false) :
    Tracks (fun _ => True) IsFinal (entryType r entry) (entryType (r.adding m) entry) := by
  cases entry with
  | handle id token =>
    cases loaded : r.snapshot.get? id with
    | none =>
      rw [entryType, handleType, loaded]
      exact .free trivial
    | some module' =>
      have again : (r.adding m).snapshot.get? id = r.snapshot.get? id :=
        Snapshot.get?_add (by simp [loaded])
      rw [entryType, entryType, handleType, handleType, again]
      exact .of_raises fun _ _ => trivial
  | reference name => exact Resolver.resolveType_add core home unaccepted
  | qualifiedName text =>
    simp only [Entry.references] at unaccepted
    simp only [entryType]
    have depth : (r.adding m).maxDepth = r.maxDepth := rfl
    rw [depth]
    cases read : QualifiedName.parse text r.maxDepth with
    | error => exact .free trivial
    | ok name =>
      rw [read] at unaccepted
      exact Resolver.resolveType_add core home unaccepted

theorem bindKind_add (unaccepted : ∀ reference ∈ context.references r.maxDepth,
    r.matching.accepts reference m.identity = false) (lexeme : String) (kind : Kind)
    (returned : String) :
    Tracks (fun _ => True) IsFinal (bindKind r context lexeme kind returned)
      (bindKind (r.adding m) context lexeme kind returned) := by
  have same : returnedType (r.adding m).snapshot returned = returnedType r.snapshot returned := by
    rw [returnedType, returnedType, Resolver.adding, Snapshot.coreType_add core]
  rw [bindKind, bindKind, same]
  refine Tracks.bind (.of_raises fun _ _ => trivial) fun accessorType _ => ?_
  dsimp only
  split
  · next entry found =>
    exact (entryType_add core home fun reference stated =>
      unaccepted reference (Context.lookup?_references found stated)).bind fun _ _ => .ok _
  · exact .ok _

theorem bind_add (unaccepted : ∀ reference ∈ context.references r.maxDepth,
    r.matching.accepts reference m.identity = false) (name : String) :
    Tracks (fun _ => True) IsFinal (bind r context name) (bind (r.adding m) context name) := by
  unfold bind
  split
  · unfold bindDeclared
    split
    · exact .ok _
    · next entry found =>
      exact (entryType_add core home fun reference stated =>
        unaccepted reference (Context.declared?_references found stated)).bind fun _ _ => .ok _
  · split
    · exact bindKind_add core home unaccepted _ _ _
    · exact .ok _

end Pseudo

namespace Bound.Scope
variable {s : Scope} {m : Module}

/-- The full names that a dotted name may have, the longest namespace first. -/
def readings (segments : List (String × Nat)) : List String :=
  (List.range segments.length).reverse.filterMap fun split =>
    let space := segments.take split
    if space.any (·.2 != 0) then none else some (metadataName space (segments.drop split))

theorem findNamed?_eq (segments : List (String × Nat)) :
    s.findNamed? segments =
      (readings segments).findSome? fun fullName => (s.locateType? fullName).map (fullName, ·) := by
  unfold findNamed? readings
  induction (List.range segments.length).reverse with
  | nil => rfl
  | cons split rest ih =>
    rw [List.findSome?_cons, List.filterMap_cons]
    dsimp only
    cases (segments.take split).any (·.2 != 0) with
    | true => exact ih
    | false =>
      rw [if_neg Bool.false_ne_true, if_neg Bool.false_ne_true, List.findSome?_cons]
      cases s.locateType? (metadataName (segments.take split) (segments.drop split)) with
      | some => rfl
      | none => exact ih

/-- The readings that are tried before one is found. -/
def vainReadings (s : Scope) (segments : List (String × Nat)) : List String :=
  (readings segments).takeWhile fun fullName => (s.locateType? fullName).isNone

theorem locateType?_add (core : s.snapshot.coreLibrary?.isSome)
    (home : (s.snapshot.get? s.frame.home).isSome) (fullName : String) :
    (s.moved (s.snapshot.add m) s.context).locateType? fullName =
      (s.locateType? fullName).or
        (Snapshot.typeIn? fullName { m with id := s.snapshot.nextId }) := by
  rw [locateType?, locateType?, moved_snapshot, moved_frame, Snapshot.get?_add home,
    Snapshot.coreLibrary?_add core, Snapshot.modules_add, ← List.append_assoc,
    List.findSome?_append, List.findSome?_singleton]

theorem findNamed?_add (core : s.snapshot.coreLibrary?.isSome)
    (home : (s.snapshot.get? s.frame.home).isSome) {segments : List (String × Nat)}
    (untouched : ∀ fullName ∈ s.vainReadings segments, m.typeNamed? fullName = none) :
    (s.moved (s.snapshot.add m) s.context).findNamed? segments = s.findNamed? segments := by
  rw [findNamed?_eq, findNamed?_eq]
  unfold vainReadings at untouched
  revert untouched
  induction readings segments with
  | nil => exact fun _ => rfl
  | cons fullName rest ih =>
    intro untouched
    rw [List.findSome?_cons, List.findSome?_cons, locateType?_add core home]
    cases located : s.locateType? fullName with
    | some found => rfl
    | none =>
      simp only [List.takeWhile_cons, located, Option.isNone_none, if_true] at untouched
      obtain ⟨vain, later⟩ := List.forall_mem_cons.mp untouched
      have absent : Snapshot.typeIn? fullName { m with id := s.snapshot.nextId } = none :=
        Option.map_eq_none_iff.mpr vain
      rw [absent]
      exact ih later

/-- The full names under which an expression looks for types in vain. -/
def vainNames (s : Scope) (e : Expr) : List String :=
  (e.subexprs.flatMap s.ownPaths).flatMap s.vainReadings

/-- Binding gets the same answers at every node after a module is loaded that none of them needs. -/
theorem answers_add (core : s.snapshot.coreLibrary?.isSome)
    (home : (s.snapshot.get? s.frame.home).isSome)
    (unaccepted : ∀ reference ∈ s.context.references s.config.maxTypeNameDepth,
      s.config.matching.accepts reference m.identity = false) {e : Expr}
    (untouched : ∀ fullName ∈ s.vainNames e, m.typeNamed? fullName = none) :
    ∀ sub ∈ e.subexprs,
      Answers (fun _ => True) IsFinal s (s.snapshot.add m) s.context sub := by
  intro sub below
  refine ⟨fun name _ _ => ?_, fun path looked => findNamed?_add core home fun fullName vain => ?_⟩
  · refine Pseudo.bind_add core (fun id isHome => ?_) unaccepted name
    obtain rfl := Option.mem_some.mp isHome
    exact home
  · exact untouched fullName (List.mem_flatMap.mpr
      ⟨path, List.mem_flatMap.mpr ⟨sub, below, looked⟩, vain⟩)

end Bound.Scope

/-- A request that was compiled is compiled to the same code after a module is loaded that is
accepted for no assembly of the inspection context, and that defines no type under a full name which
was looked for in vain. -/
theorem Request.compile_add {s : Scope} {m : Module} {request : Request} {compiled : Compiled}
    (core : s.snapshot.coreLibrary?.isSome) (frame : s.frame.Held s.snapshot)
    (home : (s.snapshot.get? s.frame.home).isSome)
    (unaccepted : ∀ reference ∈ s.context.references s.config.maxTypeNameDepth,
      s.config.matching.accepts reference m.identity = false)
    (untouched : ∀ e, request.parse s = .ok e → ∀ fullName ∈ (request.scope s).vainNames e,
      m.typeNamed? fullName = none)
    (compiles : request.compile s = .ok compiled) :
    request.compile { s with snapshot := s.snapshot.add m } = .ok compiled := by
  have follows : Follows (fun _ => True) IsFinal False s (s.snapshot.add m) s.context :=
    { agree :=
        { core := Snapshot.coreType_add core
          locate := fun known => Snapshot.locate_add core (known.resolve_left id)
          plain := fun _ => trivial
          bound := id }
      frame := .inr frame
      home := .inr home }
  refine (request.compile_tracks follows fun e parsed => ?_).eq_ok compiles
  have untouched := untouched e parsed
  cases request with
  | expression source options =>
    exact Scope.answers_add (s := scope s (expression source options)) core home unaccepted untouched
  | assignment target source =>
    exact Scope.answers_add (s := scope s (assignment target source)) core home unaccepted untouched

namespace Sample

/-- A class with a static number behind the namespace `N`. -/
def counter : TypeDefinition :=
  TypeDeclaration.define
    { fullName := "N.T", kind := .classType
      fields := [⟨"F", .named none "System.Int32" [], true⟩] }
    (.typeDefinition 1)

def app : Module :=
  .ofDefinitions ⟨"App", ⟨1, 0, 0, 0⟩, none, none⟩ [counter]

/-- A class `fullName`, of another assembly. -/
def other (fullName : String) : Module :=
  .ofDefinitions ⟨"Other", ⟨1, 0, 0, 0⟩, none, none⟩
    [TypeDeclaration.define { fullName, kind := .classType } (.typeDefinition 1)]

/-- The program beside the class, of which an object is numbered. -/
def counting : Scope :=
  let stopped := scope [] []
  { stopped with
    snapshot := stopped.snapshot.add app
    context := stopped.context.insert "1" (.qualifiedName "N.T, App") }

theorem counting_held : counting.frame.Held counting.snapshot :=
  (frame_held (by simp) (by simp)).add

theorem number_compiles : ∃ compiled,
    Request.compile counting (.expression "N.T.F" {}) = .ok compiled :=
  ok_of_isSome (by decide +kernel)

/-- The inspection context speaks of the class's assembly alone. -/
theorem other_unaccepted (fullName : String) :
    ∀ reference ∈ counting.context.references counting.config.maxTypeNameDepth,
      counting.config.matching.accepts reference (other fullName).identity = false := by
  change ∀ reference ∈ counting.context.references counting.config.maxTypeNameDepth,
    counting.config.matching.accepts reference ⟨"Other", ⟨1, 0, 0, 0⟩, none, none⟩ = false
  decide +kernel

end Sample

/-- A static number is compiled alike after another class of the same full name is loaded. -/
theorem static_number_kept : ∃ compiled,
    Request.compile Sample.counting (.expression "N.T.F" {}) = .ok compiled ∧
    Request.compile { Sample.counting with
        snapshot := Sample.counting.snapshot.add (Sample.other "N.T") }
      (.expression "N.T.F" {}) = .ok compiled := by
  obtain ⟨compiled, compiles⟩ := Sample.number_compiles
  refine ⟨compiled, compiles, Request.compile_add (by decide +kernel) Sample.counting_held
    (by decide +kernel) (Sample.other_unaccepted _) ?_ compiles⟩
  intro e parsed
  have vain : ((Request.expression "N.T.F" {}).parse Sample.counting).map
      Sample.counting.vainNames = .ok ["N"] := by decide +kernel
  rw [parsed] at vain
  have names : ((Request.expression "N.T.F" {}).scope Sample.counting).vainNames e = ["N"] :=
    Except.ok.inj vain
  rw [names]
  decide +kernel

namespace Sample

/-- The program beside a class `A` and a class `B` nested in it, whose objects have a number. -/
def nesting : Scope :=
  let stopped := scope [] []
  { stopped with
    snapshot := stopped.snapshot.add <| .ofDefinitions ⟨"App", ⟨1, 0, 0, 0⟩, none, none⟩
      [TypeDeclaration.define { fullName := "A", kind := .classType } (.typeDefinition 1),
        TypeDeclaration.define
          { fullName := "A+B", kind := .classType
            fields := [⟨"F", .named none "System.Int32" [], false⟩] }
          (.typeDefinition 2)] }

theorem nesting_held : nesting.frame.Held nesting.snapshot :=
  (frame_held (by simp) (by simp)).add

end Sample

/-- A class with the full name `A.B` takes the cast `(A.B)` from the class `B` nested in `A`: the
reading with the longer namespace comes first, though the inspection context does not speak of the
assembly. -/
theorem nested_cast_lost :
    Sample.nesting.snapshot.coreLibrary?.isSome ∧
    Sample.nesting.frame.Held Sample.nesting.snapshot ∧
    (∀ reference ∈ Sample.nesting.context.references Sample.nesting.config.maxTypeNameDepth,
      Sample.nesting.config.matching.accepts reference (Sample.other "A.B").identity = false) ∧
    (∃ compiled, Request.compile Sample.nesting (.expression "((A.B)null).F" {}) = .ok compiled) ∧
    Request.compile { Sample.nesting with
        snapshot := Sample.nesting.snapshot.add (Sample.other "A.B") }
      (.expression "((A.B)null).F" {}) = .error (.memberNotFound "A.B" "F") :=
  ⟨by decide +kernel, Sample.nesting_held, by decide +kernel, ok_of_isSome (by decide +kernel),
    eq_error_of_map (f := fun _ => ()) (by decide +kernel)⟩

end DebugExpr
