import DebugExpr.Proofs.DeclaredReferences
import DebugExpr.Proofs.TypeIdentity

/-! Types of a module by their places, their names and their tokens. Rows are counted over all
declarations, also over those that are dropped because their full name occurs before, and places
over the kept ones alone. The counts agree nevertheless: a register that numbers the names while the
definitions are entered finds what a search by name finds, and a kept definition is found by its
name and by its token. So types of one snapshot are the same just if module, full name and arguments
are. -/
namespace DebugExpr.Metadata

/-- The definitions that were entered so far and kept, and the places of their names among them. -/
structure Register where
  types : List TypeDefinition
  places : List (String × Nat)

namespace Register

def empty : Register :=
  ⟨[], []⟩

def place? (r : Register) (fullName : String) : Option Nat :=
  r.places.lookup fullName

/-- A definition is kept at the end, unless its full name has a place. -/
def enter (r : Register) (d : TypeDefinition) : Register :=
  match r.place? d.fullName with
  | some _ => r
  | none => ⟨r.types ++ [d], (d.fullName, r.types.length) :: r.places⟩

def enterAll (r : Register) (ds : List TypeDefinition) : Register :=
  ds.foldl enter r

def ofDefinitions (ds : List TypeDefinition) : Register :=
  empty.enterAll ds

def typeNamed? (r : Register) (fullName : String) : Option TypeDefinition :=
  (r.place? fullName).bind (r.types[·]?)

/-- The place of a name is that of the definition with the name. -/
def Coherent (r : Register) : Prop :=
  ∀ fullName, r.place? fullName = r.types.findIdx? (·.fullName == fullName)

variable {r : Register}

/-- A name keeps the place that it has, and a new one gets the place behind all others. -/
theorem place?_enter (r : Register) (d : TypeDefinition) (fullName : String) :
    (r.enter d).place? fullName =
      (r.place? fullName).or (if d.fullName == fullName then some r.types.length else none) := by
  unfold enter
  by_cases same : d.fullName = fullName
  · subst same
    cases known : r.place? d.fullName with
    | some place => exact known
    | none => simp [place?]
  · cases r.place? d.fullName with
    | some place => simp [same]
    | none =>
      have other : (fullName == d.fullName) = false := beq_eq_false_iff_ne.mpr (Ne.symm same)
      simp [place?, List.lookup_cons, other, same]

theorem types_enter (r : Register) (d : TypeDefinition) :
    (r.enter d).types = r.types ++ [d].filter fun e => (r.place? e.fullName).isNone := by
  unfold enter
  cases known : r.place? d.fullName <;> simp [known]

theorem coherent_empty : empty.Coherent :=
  fun _ => rfl

theorem Coherent.enter (coherent : r.Coherent) (d : TypeDefinition) : (r.enter d).Coherent := by
  intro fullName
  rw [place?_enter, types_enter, List.findIdx?_append, ← coherent]
  by_cases same : d.fullName = fullName
  · subst same
    cases known : r.place? d.fullName <;> simp [known]
  · cases known : r.place? d.fullName <;> simp [known, same]

theorem Coherent.enterAll (coherent : r.Coherent) (ds : List TypeDefinition) :
    (r.enterAll ds).Coherent := by
  induction ds generalizing r with
  | nil => exact coherent
  | cons d rest ih => exact ih (coherent.enter d)

/-- Of the definitions that are entered the first of every name is kept, if the name has no place
yet. -/
theorem types_enterAll (r : Register) (ds : List TypeDefinition) :
    (r.enterAll ds).types =
      r.types ++ (keepFirst ds).filter fun d => (r.place? d.fullName).isNone := by
  induction ds generalizing r with
  | nil => simp [enterAll, keepFirst]
  | cons d rest ih =>
    have unplaced (e : TypeDefinition) : ((r.enter d).place? e.fullName).isNone =
        ((r.place? e.fullName).isNone && e.fullName != d.fullName) := by
      rw [place?_enter]
      by_cases same : e.fullName = d.fullName
      · simp [same]
      · simp [same, Ne.symm same]
    calc ((r.enter d).enterAll rest).types
        = (r.enter d).types ++
            (keepFirst rest).filter fun e => ((r.enter d).place? e.fullName).isNone := ih _
      _ = r.types ++ ([d] ++ (keepFirst rest).filter (·.fullName != d.fullName)).filter
            fun e => (r.place? e.fullName).isNone := by
          simp only [unplaced, types_enter, List.filter_append, List.filter_filter,
            List.append_assoc]

theorem types_ofDefinitions (ds : List TypeDefinition) :
    (ofDefinitions ds).types = keepFirst ds := by
  rw [ofDefinitions, types_enterAll]
  exact List.filter_eq_self.mpr fun _ _ => rfl

/-- By its register a module finds what a search through its types finds. -/
theorem typeNamed?_ofDefinitions (ds : List TypeDefinition) (fullName : String) :
    (ofDefinitions ds).typeNamed? fullName = (keepFirst ds).find? (·.fullName == fullName) := by
  have coherent : (ofDefinitions ds).Coherent := coherent_empty.enterAll ds
  rw [typeNamed?, coherent, types_ofDefinitions, List.find?_eq_bind_findIdx?_getElem?]

end Register

/-- The module keeps, in their order, the definitions that are the first of their names, and finds
each by its name and by its token. -/
structure Module.Indexes (m : Module) (ds : List TypeDefinition) : Prop where
  inOrder : m.types.Sublist ds
  keepsFirst : ∀ i d, ds[i]? = some d →
    (d ∈ m.types ↔ ∀ earlier ∈ ds.take i, earlier.fullName ≠ d.fullName)
  names : (m.types.map (·.fullName)).Nodup
  tokens : (m.types.map (·.token)).Nodup
  byName : ∀ d ∈ m.types, m.typeNamed? d.fullName = some d
  byToken : ∀ d ∈ m.types, m.typeAt? d.token = some d
  registered : (Register.ofDefinitions ds).types = m.types
  byPlace : ∀ fullName, (Register.ofDefinitions ds).typeNamed? fullName = m.typeNamed? fullName

/-- Kept is what stands behind none of its name. -/
theorem mem_keepFirst_iff {ds : List TypeDefinition} {d : TypeDefinition} :
    d ∈ keepFirst ds ↔ ∃ i, ds[i]? = some d ∧
      ∀ earlier ∈ ds.take i, earlier.fullName ≠ d.fullName := by
  have searched : d ∈ keepFirst ds ↔ ds.find? (·.fullName == d.fullName) = some d := by
    rw [← find?_keepFirst]
    exact ⟨Snapshot.find?_eq_some_of_nodup (keepFirst_nodup ds), List.mem_of_find?_eq_some⟩
  rw [searched, List.find?_eq_some_iff_getElem]
  simp only [beq_self_eq_true, true_and, Bool.not_eq_true', beq_eq_false_iff_ne]
  constructor
  · rintro ⟨i, inside, found, others⟩
    refine ⟨i, List.getElem?_eq_some_iff.mpr ⟨inside, found⟩, fun earlier before => ?_⟩
    obtain ⟨j, bound, rfl⟩ := List.mem_take_iff_getElem.mp before
    exact others j (by omega)
  · rintro ⟨i, found, others⟩
    obtain ⟨inside, found⟩ := List.getElem?_eq_some_iff.mp found
    exact ⟨i, inside, found, fun j before =>
      others _ (List.mem_take_iff_getElem.mpr ⟨j, by omega, rfl⟩)⟩

theorem build_indexes (identity : Assembly.Identity) {declarations : List TypeDeclaration}
    (few : declarations.length < 2 ^ 24) :
    (Module.build identity declarations).Indexes (TypeDeclaration.defineAll declarations) where
  inOrder := keepFirst_sublist _
  keepsFirst i d found := by
    change d ∈ keepFirst (TypeDeclaration.defineAll declarations) ↔ _
    rw [mem_keepFirst_iff]
    constructor
    · rintro ⟨j, found', first⟩
      -- a definition stands at one place only, for it has the token of its row
      have inside := (List.getElem?_eq_some_iff.mp found').1
      have distinct := (TypeDeclaration.defineAll_tokens_nodup few).of_map
      rwa [← (List.getElem?_inj inside distinct).mp (found'.trans found.symm)]
    · exact fun first => ⟨i, found, first⟩
  names := keepFirst_nodup _
  tokens := Module.build_tokens_nodup identity few
  byName _ := Snapshot.find?_eq_some_of_nodup (keepFirst_nodup _)
  byToken _ := Snapshot.typeAt?_eq_some (Module.build_tokens_nodup identity few)
  registered := Register.types_ofDefinitions _
  byPlace := Register.typeNamed?_ofDefinitions _

namespace Snapshot
variable {s : Snapshot}

/-- Modules that are added stand behind those of the snapshot, each at its id. -/
theorem modules_foldl_add (modules : List Module) :
    (modules.foldl add s).modules =
      s.modules ++ modules.mapIdx fun k m => { m with id := ⟨s.modules.length + k⟩ } := by
  induction modules generalizing s with
  | nil => simp
  | cons m rest ih =>
    rw [List.foldl_cons, ih, List.mapIdx_cons, modules_add, List.append_assoc]
    simp [nextId, Nat.add_assoc, Nat.add_comm 1]

/-- Loaded types are the same just if they have one module, one full name and the same arguments. -/
theorem beq_named_iff (unique : s.TokensUnique) {home home' : ModuleId} {d d' : TypeDefinition}
    {args args' : List ClosedType} (loads : s.Loads (.named home d args))
    (loads' : s.Loads (.named home' d' args')) :
    (ClosedType.named home d args == .named home' d' args') = true ↔
      home = home' ∧ d.fullName = d'.fullName ∧ (args == args') = true := by
  obtain ⟨m, loaded, member⟩ := loads
  obtain ⟨m', loaded', member'⟩ := loads'
  have one (same : home = home') : m = m' := by
    subst same
    exact Option.some.inj (loaded.symm.trans loaded')
  have named : (ClosedType.named home d args == .named home' d' args') = true ↔
      (home = home' ∧ d.token = d'.token) ∧ ClosedType.sameAll args args' = true := by
    simp [BEq.beq, ClosedType.same]
  rw [named, ClosedType.sameAll_eq_beq, and_assoc]
  refine and_congr_right fun same => and_congr_left fun _ => ?_
  obtain rfl := one same
  constructor
  · intro token
    rw [List.inj_on_of_nodup_map (unique m (get?_mem loaded)) member member' token]
  · intro fullName
    rw [List.inj_on_of_nodup_map m.names_nodup member member' fullName]

/-- The snapshot of modules that were built from declarations, in load order. -/
def ofDeclarations (builds : List (Assembly.Identity × List TypeDeclaration)) : Snapshot :=
  (builds.map fun (identity, declarations) => Module.build identity declarations).foldl add empty

/-- A module is found at its place in the load order. -/
theorem get?_ofDeclarations {builds : List (Assembly.Identity × List TypeDeclaration)} {k : Nat} :
    (ofDeclarations builds).get? ⟨k⟩ = builds[k]?.map fun (identity, declarations) =>
      { Module.build identity declarations with id := ⟨k⟩ } := by
  rw [get?, ofDeclarations, modules_foldl_add]
  simp [empty, Function.comp_def]

/-- Of types declared in modules, fewer in each than a token has rows, every module keeps the first
of each full name and finds it by name and by token. Types that are made of what the snapshot holds
are told apart by module, full name and arguments. -/
theorem declared_types_identified {builds : List (Assembly.Identity × List TypeDeclaration)}
    (few : ∀ build ∈ builds, build.2.length < 2 ^ 24) :
    (∀ (k : Nat) identity declarations, builds[k]? = some (identity, declarations) →
      ∃ m, (ofDeclarations builds).get? ⟨k⟩ = some m ∧ m.identity = identity ∧
        m.Indexes (TypeDeclaration.defineAll declarations)) ∧
    ∀ home home' d d' args args', (ofDeclarations builds).Loads (.named home d args) →
      (ofDeclarations builds).Loads (.named home' d' args') →
      ((ClosedType.named home d args == .named home' d' args') = true ↔
        home = home' ∧ d.fullName = d'.fullName ∧ (args == args') = true) := by
  have built {k : Nat} {m : Module} (found : (ofDeclarations builds).get? ⟨k⟩ = some m) :
      ∃ identity declarations, builds[k]? = some (identity, declarations) ∧
        m.identity = identity ∧ m.Indexes (TypeDeclaration.defineAll declarations) := by
    rw [get?_ofDeclarations, Option.map_eq_some_iff] at found
    obtain ⟨⟨identity, declarations⟩, listed, rfl⟩ := found
    have indexes := build_indexes identity (few _ (List.mem_of_getElem? listed))
    exact ⟨identity, declarations, listed, rfl, { indexes with }⟩
  constructor
  · intro k identity declarations listed
    have found : (ofDeclarations builds).get? ⟨k⟩ = some
        { Module.build identity declarations with id := ⟨k⟩ } := by
      rw [get?_ofDeclarations, listed, Option.map_some]
    obtain ⟨_, _, listed', same, indexes⟩ := built found
    cases listed.symm.trans listed'
    exact ⟨_, found, same, indexes⟩
  · intro home home' d d' args args'
    refine beq_named_iff fun m member => ?_
    obtain ⟨_, _, _, _, indexes⟩ := built (get?_id member)
    exact indexes.tokens

/-- A name is declared again behind another one, and in another module. -/
def repeatedNames : List (Assembly.Identity × List TypeDeclaration) :=
  [(.simple "App" ⟨1, 0, 0, 0⟩,
      [{ fullName := "A", kind := .classType }, { fullName := "Ns.B", kind := .valueType },
        { fullName := "A", kind := .valueType }, { fullName := "C", kind := .classType }]),
    (.simple "Lib" ⟨1, 0, 0, 0⟩, [{ fullName := "A", kind := .classType }])]

/-- The definition in the third row is dropped, so the one in the fourth has the third place. -/
theorem repeatedNames_identified :
    (∀ build ∈ repeatedNames, build.2.length < 2 ^ 24) ∧
    ∃ m m', (ofDeclarations repeatedNames).get? ⟨0⟩ = some m ∧
      (ofDeclarations repeatedNames).get? ⟨1⟩ = some m' ∧
      m.types.map (fun d => (d.fullName, d.token.row)) = [("A", 1), ("Ns.B", 2), ("C", 4)] ∧
      (∀ d ∈ m.types, m.typeNamed? d.fullName = some d ∧ m.typeAt? d.token = some d) ∧
      (∀ d ∈ m.types, ∀ d' ∈ m.types,
        (ClosedType.named ⟨0⟩ d [] == .named ⟨0⟩ d' []) = true ↔ d.fullName = d'.fullName) ∧
      ∀ d ∈ m.types, ∀ d' ∈ m'.types, (ClosedType.named ⟨0⟩ d [] == .named ⟨1⟩ d' []) = false := by
  have few : ∀ build ∈ repeatedNames, build.2.length < 2 ^ 24 := by decide
  obtain ⟨kept, identified⟩ := declared_types_identified few
  obtain ⟨m, found, -, indexes⟩ := kept 0 _ _ rfl
  obtain ⟨m', found', -⟩ := kept 1 _ _ rfl
  have types : m.types = keepFirst (TypeDeclaration.defineAll repeatedNames[0].2) :=
    indexes.registered.symm.trans (Register.types_ofDefinitions _)
  refine ⟨few, m, m', found, found', types ▸ by decide +kernel, fun d member => ?_,
    fun d member d' member' => ?_, fun d member d' member' => ?_⟩
  · exact ⟨indexes.byName d member, indexes.byToken d member⟩
  · rw [identified _ _ _ _ _ _ ⟨m, found, member⟩ ⟨m, found, member'⟩]
    simp
  · rw [Bool.eq_false_iff, Ne, identified _ _ _ _ _ _ ⟨m, found, member⟩ ⟨m', found', member'⟩]
    simp

end Snapshot

end DebugExpr.Metadata
