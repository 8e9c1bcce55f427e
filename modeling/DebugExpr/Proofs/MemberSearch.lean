import DebugExpr.Proofs.BaseChains
import DebugExpr.Proofs.BindingSteps
import DebugExpr.Proofs.SampleScope

/-! Which member a name finds. The search climbs from a type to its base types and ends at the first
one that declares the name in any way. What is called has to be a method, but a field or a property
of a more derived type ends the search for it as well, so that the methods behind are found only
where no such member stands before them. -/
namespace DebugExpr

namespace Metadata

namespace ClosedType

/-- The type itself declares a method of the name. -/
def DeclaresMethod (name : String) : ClosedType → Prop
  | .named _ d _ => ∃ m ∈ d.methods, m.name = name
  | .array .. => False

/-- The type itself declares a field or a property of the name. -/
def DeclaresValue (name : String) : ClosedType → Prop
  | .named _ d _ => (∃ f ∈ d.fields, f.name = name) ∨ ∃ p ∈ d.properties, p.name = name
  | .array .. => False

/-- The type itself declares a member of the name. -/
def Declares (name : String) (type : ClosedType) : Prop :=
  type.DeclaresMethod name ∨ type.DeclaresValue name

end ClosedType

namespace Snapshot
variable {s : Snapshot} {P : ClosedType → Prop} {type owner base : ClosedType} {n : Nat}

/-- The first type of a chain with a property, and its place in the chain. -/
structure Nearest (s : Snapshot) (P : ClosedType → Prop) (type : ClosedType) (n : Nat)
    (owner : ClosedType) : Prop where
  climbs : s.Climbs type n owner
  holds : P owner
  nearer : ∀ m < n, ∀ type', s.Climbs type m type' → ¬P type'

theorem exists_nearest (climbs : s.Climbs type n owner) (holds : P owner) :
    ∃ m ≤ n, ∃ owner', s.Nearest P type m owner' := by
  induction n using Nat.strongRecOn generalizing owner with
  | ind n ih =>
    by_cases nearer : ∃ m < n, ∃ type', s.Climbs type m type' ∧ P type'
    · obtain ⟨m, before, type', climbs', holds'⟩ := nearer
      obtain ⟨k, within, nearest⟩ := ih m before climbs' holds'
      exact ⟨k, Nat.le_trans within (Nat.le_of_lt before), nearest⟩
    · refine ⟨n, Nat.le_refl n, owner, climbs, holds, fun m before type' climbs' holds' => ?_⟩
      exact nearer ⟨m, before, type', climbs', holds'⟩

/-- Behind the first type of a chain the first type with a property is one step less away. -/
theorem Nearest.step (nearest : s.Nearest P type (n + 1) owner)
    (inherits : s.baseType type = .ok (some base)) : s.Nearest P base n owner where
  climbs := (climbs_succ inherits).mp nearest.climbs
  holds := nearest.holds
  nearer m before type' climbs :=
    nearest.nearer (m + 1) (Nat.succ_lt_succ before) type' ((climbs_succ inherits).mpr climbs)

end Snapshot

end Metadata

namespace Bound.Scope
open Metadata
variable {s : Scope} {name : String} {invoked : Bool} {type owner base : ClosedType} {n steps : Nat}
  {home : ModuleId} {d : TypeDefinition} {args : List ClosedType}

theorem methodsNamed_isEmpty :
    (d.methodsNamed name).isEmpty = true ↔ ¬(ClosedType.named home d args).DeclaresMethod name := by
  simp [TypeDefinition.methodsNamed, ClosedType.DeclaresMethod, List.isEmpty_iff]

theorem declaresValue_iff : (ClosedType.named home d args).DeclaresValue name ↔
    (d.field? name).isSome = true ∨ (d.property? name).isSome = true := by
  simp [TypeDefinition.field?, TypeDefinition.property?, ClosedType.DeclaresValue]

/-- A field or a property with its type, which is bound to the arguments of the declaring type. -/
def typedMember (s : Scope) (home : ModuleId) (d : TypeDefinition) (args : List ClosedType)
    (m : Metadata.Member) (as : MemberRef → Member) : Except Error (Option Member) :=
  (s.snapshot.bind home args [] m.signature).map fun type =>
    some (as ⟨.named home d args, m.name, type, m.isStatic⟩)

/-- What a name means on a type that declares it, where it is not called: a field before a property,
and methods last. -/
def plainMember (s : Scope) (name : String) (home : ModuleId) (d : TypeDefinition)
    (args : List ClosedType) : Except Error (Option Member) :=
  match d.field? name with
  | some f => s.typedMember home d args f .field
  | none =>
    match d.property? name with
    | some p => s.typedMember home d args p .property
    | none => .ok (some (.methods (.named home d args) (d.methodsNamed name)))

theorem memberRef_typed (m : Metadata.Member) (as : MemberRef → Member) :
    (do return some (as (← s.memberRef (.named home d args) home args m))) =
      s.typedMember home d args m as := by
  unfold memberRef typedMember
  cases s.snapshot.bind home args [] m.signature <;> rfl

theorem typedMember_eq_ok {m : Metadata.Member} {as : MemberRef → Member} {found : Option Member}
    (h : s.typedMember home d args m as = .ok found) : ∃ r, found = some (as r) := by
  obtain ⟨type, -, rfl⟩ := map_eq_ok.mp h
  exact ⟨_, rfl⟩

theorem declaredMember_called (declares : (ClosedType.named home d args).DeclaresMethod name) :
    s.declaredMember name true (.named home d args) =
      .ok (some (.methods (.named home d args) (d.methodsNamed name))) := by
  have some : (d.methodsNamed name).isEmpty = false :=
    Bool.eq_false_iff.mpr fun empty => methodsNamed_isEmpty.mp empty declares
  simp [declaredMember, some]

/-- Without a method of the name it does not matter whether it is called. -/
theorem declaredMember_uncalled
    (uncalled : invoked = false ∨ ¬(ClosedType.named home d args).DeclaresMethod name)
    (declares : (ClosedType.named home d args).Declares name) :
    s.declaredMember name invoked (.named home d args) = s.plainMember name home d args := by
  have notCalled : (invoked && (if (d.methodsNamed name).isEmpty then none else
      some (Member.methods (.named home d args) (d.methodsNamed name))).isSome) = false := by
    rcases uncalled with rfl | noMethod
    · rfl
    · simp [methodsNamed_isEmpty.mpr noMethod]
  simp only [declaredMember, notCalled, Bool.false_eq_true, if_false, plainMember, memberRef_typed]
  cases isField : d.field? name with
  | some f => rfl
  | none =>
    cases isProperty : d.property? name with
    | some p => rfl
    | none =>
      have noValue : ¬(ClosedType.named home d args).DeclaresValue name := by
        simp [declaresValue_iff, isField, isProperty]
      have someMethod := mt methodsNamed_isEmpty.mp (not_not_intro (declares.resolve_right noValue))
      simp [someMethod]

theorem plainMember_eq_ok {found : Option Member} (h : s.plainMember name home d args = .ok found) :
    (∃ r, found = some (.field r) ∨ found = some (.property r)) ∨
      found = some (.methods (.named home d args) (d.methodsNamed name)) ∧
        ¬(ClosedType.named home d args).DeclaresValue name := by
  unfold plainMember at h
  split at h
  · obtain ⟨r, rfl⟩ := typedMember_eq_ok h
    exact .inl ⟨r, .inl rfl⟩
  · split at h
    · obtain ⟨r, rfl⟩ := typedMember_eq_ok h
      exact .inl ⟨r, .inr rfl⟩
    · rename_i noField _ noProperty
      obtain rfl := Except.ok.inj h
      exact .inr ⟨rfl, by simp [declaresValue_iff, noField, noProperty]⟩

theorem declaredMember_ne_none (declares : type.Declares name) :
    s.declaredMember name invoked type ≠ .ok none := by
  cases type with
  | array => exact (declares.elim id id).elim
  | named home d args =>
    by_cases called : invoked = true ∧ (ClosedType.named home d args).DeclaresMethod name
    · obtain ⟨rfl, method⟩ := called
      simp [declaredMember_called method]
    · have uncalled := (Classical.not_and_iff_not_or_not.mp called).imp_left eq_false_of_ne_true
      rw [declaredMember_uncalled uncalled declares]
      intro none
      rcases plainMember_eq_ok none with ⟨_, found | found⟩ | ⟨found, -⟩ <;> cases found

theorem declaredMember_none (declares : ¬type.Declares name) :
    s.declaredMember name invoked type = .ok none := by
  cases type with
  | array => rfl
  | named home d args =>
    obtain ⟨noMethod, noValue⟩ := not_or.mp declares
    obtain ⟨noField, noProperty⟩ := not_or.mp (mt declaresValue_iff.mpr noValue)
    have noMethods := methodsNamed_isEmpty.mpr noMethod
    simp only [Option.not_isSome_iff_eq_none] at noField noProperty
    simp [declaredMember, noMethods, noField, noProperty]

/-- The search ends at a type that declares the name. -/
theorem findMemberWithin_here (declares : type.Declares name) :
    s.findMemberWithin name invoked steps type = s.declaredMember name invoked type := by
  have answers : s.declaredMember name invoked type ≠ .ok none := declaredMember_ne_none declares
  unfold findMemberWithin
  rcases declared : s.declaredMember name invoked type with e | _ | found
  · rfl
  · exact absurd declared answers
  · rfl

/-- It goes on with the base type where the name is not declared. -/
theorem findMemberWithin_base (base : ClosedType)
    (nothing : s.declaredMember name invoked type = .ok none)
    (inherits : s.snapshot.baseType type = .ok (some base)) :
    s.findMemberWithin name invoked (steps + 1) type =
      s.findMemberWithin name invoked steps base := by
  rw [findMemberWithin.eq_def]
  simp only [nothing, ok_bind, inherits]

/-- It answers nothing where the chain ends without the name. -/
theorem findMemberWithin_top (nothing : s.declaredMember name invoked type = .ok none)
    (top : s.snapshot.baseType type = .ok none) :
    s.findMemberWithin name invoked (steps + 1) type = .ok none := by
  rw [findMemberWithin.eq_def]
  simp only [nothing, ok_bind, top]
  rfl

theorem findMemberWithin_nearest (within : n ≤ steps)
    (nearest : s.snapshot.Nearest (·.Declares name) type n owner) :
    s.findMemberWithin name invoked steps type = s.declaredMember name invoked owner := by
  induction n generalizing type steps with
  | zero =>
    obtain ⟨⟨⟩, declares, -⟩ := nearest
    exact findMemberWithin_here declares
  | succ n ih =>
    obtain ⟨steps, rfl⟩ : ∃ k, steps = k + 1 := ⟨steps - 1, by omega⟩
    obtain ⟨first, base, ⟨⟩, inherits⟩ := nearest.climbs.before (Nat.succ_pos n)
    have nothing : s.declaredMember name invoked type = .ok none :=
      declaredMember_none (nearest.nearer 0 (Nat.succ_pos n) type .start)
    rw [findMemberWithin_base base nothing inherits]
    exact ih (Nat.le_of_succ_le_succ within) (nearest.step inherits)

theorem findMember_nearest_member (within : n ≤ s.config.maxInheritanceDepth)
    (nearest : s.snapshot.Nearest (·.Declares name) type n owner) :
    s.findMember type name invoked = s.declaredMember name invoked owner :=
  findMemberWithin_nearest within nearest

/-- Only a named type declares members. -/
theorem named_of_declares (declares : type.Declares name) :
    ∃ home d args, type = .named home d args := by
  cases type with
  | named home d args => exact ⟨home, d, args, rfl⟩
  | array => exact (declares.elim id id).elim

/-- The methods of the nearest type that declares any are found just where no field and no property
stands before them. -/
theorem findMember_called_iff (within : n ≤ s.config.maxInheritanceDepth)
    (nearest : s.snapshot.Nearest (·.DeclaresMethod name) type n (.named home d args)) :
    s.findMember type name true =
        .ok (some (.methods (.named home d args) (d.methodsNamed name))) ↔
      ∀ m < n, ∀ nearer, s.snapshot.Climbs type m nearer → ¬nearer.DeclaresValue name := by
  obtain ⟨m, before, owner, first⟩ := Snapshot.exists_nearest
    (P := fun type => type.Declares name) nearest.climbs (.inl nearest.holds)
  have ends : s.findMember type name true = s.declaredMember name true owner :=
    findMember_nearest_member (Nat.le_trans before within) first
  rcases Nat.lt_or_eq_of_le before with stands | rfl
  · -- a field or a property stands before the methods, and is what the search ends with
    have noMethod := nearest.nearer m stands owner first.climbs
    obtain ⟨home', d', args', rfl⟩ := named_of_declares first.holds
    have value := first.holds.resolve_left noMethod
    rw [ends, declaredMember_uncalled (.inr noMethod) first.holds]
    refine iff_of_false (fun found => ?_) fun free => free m stands _ first.climbs value
    rcases plainMember_eq_ok found with ⟨_, other | other⟩ | ⟨-, noValue⟩
    · cases other
    · cases other
    · exact noValue value
  · cases nearest.climbs.unique first.climbs
    rw [ends, declaredMember_called nearest.holds]
    exact iff_of_true rfl fun k stands nearer climbs value =>
      first.nearer k stands nearer climbs (.inr value)

/-- Wherever a type within reach declares a method of the name, there is a nearest one, and a call
finds its methods just if no more derived type declares a field or a property of the name. Where the
name is not called, it means what it means on the nearest type that declares it in any way. The
arguments that are put into the type of the member are those that the definitions on the way pass
on. -/
theorem findMember_nearest (s : Scope) (name : String) {type reached : ClosedType} {n : Nat}
    (within : n ≤ s.config.maxInheritanceDepth) (climbs : s.snapshot.Climbs type n reached) :
    (reached.DeclaresMethod name → ∃ m ≤ n, ∃ home d args,
      s.snapshot.Nearest (·.DeclaresMethod name) type m (.named home d args) ∧
      (s.findMember type name true =
          .ok (some (.methods (.named home d args) (d.methodsNamed name))) ↔
        ∀ k < m, ∀ nearer, s.snapshot.Climbs type k nearer → ¬nearer.DeclaresValue name)) ∧
    (reached.Declares name → ∃ m ≤ n, ∃ home d args,
      s.snapshot.Nearest (·.Declares name) type m (.named home d args) ∧
      s.findMember type name false = s.plainMember name home d args ∧
      ∀ home₀ d₀ args₀ links, type = .named home₀ d₀ args₀ →
        s.snapshot.Links home₀ d₀ links home d → links.length = m →
        s.snapshot.passOn args₀ links = .ok args) := by
  constructor
  · intro declares
    obtain ⟨m, before, owner, nearest⟩ := Snapshot.exists_nearest
      (P := fun type => type.DeclaresMethod name) climbs declares
    obtain ⟨home, d, args, rfl⟩ := named_of_declares (.inl nearest.holds)
    exact ⟨m, before, home, d, args, nearest,
      findMember_called_iff (Nat.le_trans before within) nearest⟩
  · intro declares
    obtain ⟨m, before, owner, nearest⟩ := Snapshot.exists_nearest
      (P := fun type => type.Declares name) climbs declares
    obtain ⟨home, d, args, rfl⟩ := named_of_declares nearest.holds
    refine ⟨m, before, home, d, args, nearest, ?_, ?_⟩
    · rw [findMember_nearest_member (Nat.le_trans before within) nearest,
        declaredMember_uncalled (.inl rfl) nearest.holds]
    · rintro home₀ d₀ args₀ links rfl chain rfl
      obtain ⟨args', same, passes⟩ := chain.passOn nearest.climbs
      cases same
      exact passes

/-- A call that finds a field is refused. -/
theorem bind_invoke_field {t : Term} {f : MemberRef} {target : Source.Expr}
    {typeArgs : List Source.TypeExpr} {arguments : List (Source.Passing × Source.Expr)} {p q : Nat}
    (bound : s.bind target = .ok t) (typed : t.type? = some type)
    (finds : s.findMember type name true = .ok (some (.field f))) :
    s.bind (.invoke p (.member q target name typeArgs) arguments) = .error .methodNameExpected := by
  simp only [Scope.bind, bound, receiver, memberMethods, receiverType, typed, ok_bind, finds]
  rfl

section Instance
open Sample

/-- A generic class with a field and a method of one name, and another field:
`class Crate<T> { T Item; int Seal; void Seal(); }`. -/
def crate : TypeDefinition :=
  TypeDeclaration.define
    { fullName := "Crate\x601"
      kind := .classType
      fields := [⟨"Item", .typeParameter 0, false⟩, ⟨"Seal", .ofPrimitive .int32, false⟩]
      methods := [⟨"Seal", false, [], [], none⟩] }
    (.typeDefinition 1)

/-- `class Shelf<T> : Crate<T[]>`. -/
def shelf : TypeDefinition :=
  TypeDeclaration.define
    { fullName := "Shelf\x601"
      kind := .classType
      base := some (.named none "Crate\x601" [.array (.typeParameter 0) 1]) }
    (.typeDefinition 2)

/-- `class Rack : Shelf<int>`. -/
def rack : TypeDefinition :=
  TypeDeclaration.define
    { fullName := "Rack"
      kind := .classType
      base := some (.named none "Shelf\x601" [.ofPrimitive .int32]) }
    (.typeDefinition 3)

/-- `class Hatch : Rack { int Seal; }`. -/
def hatch : TypeDefinition :=
  TypeDeclaration.define
    { fullName := "Hatch"
      kind := .classType
      base := some (.plain "Rack")
      fields := [⟨"Seal", .ofPrimitive .int32, false⟩] }
    (.typeDefinition 4)

/-- The process is suspended where there is a local variable `Hatch h`. -/
def crateScope : Scope :=
  { scope [] [] with
    snapshot := (Snapshot.empty.add core).add
      (.ofDefinitions ⟨"App", ⟨1, 0, 0, 0⟩, none, none⟩ [crate, shelf, rack, hatch])
    frame := ⟨⟨1⟩, .named ⟨1⟩ rack [], "Main", true, [], [⟨"h", .named ⟨1⟩ hatch []⟩]⟩ }

/-- The type `Shelf<int>`. -/
def intShelf : ClosedType :=
  .named ⟨1⟩ shelf [Sample.type .int32]

/-- Its base type, `Crate<int[]>`. -/
def intsCrate : ClosedType :=
  .named ⟨1⟩ crate [.array (Sample.type .int32) 1]

theorem rack_climbs : crateScope.snapshot.Climbs (.named ⟨1⟩ rack []) 1 intShelf ∧
    crateScope.snapshot.Climbs (.named ⟨1⟩ rack []) 2 intsCrate := by
  have first : crateScope.snapshot.Climbs (.named ⟨1⟩ rack []) 1 intShelf := .step .start rfl
  exact ⟨first, .step first rfl⟩

/-- Nothing is declared before the crate. -/
theorem rack_declares_nothing (before : n < 2)
    (climbs : crateScope.snapshot.Climbs (.named ⟨1⟩ rack []) n type) : ¬type.Declares name := by
  have empty (home : ModuleId) (d : TypeDefinition) (args : List ClosedType)
      (nothing : d.fields = [] ∧ d.properties = [] ∧ d.methods = []) :
      ¬(ClosedType.named home d args).Declares name := by
    simp [ClosedType.Declares, ClosedType.DeclaresMethod, ClosedType.DeclaresValue, nothing]
  obtain rfl | rfl : n = 0 ∨ n = 1 := by omega
  · cases climbs
    exact empty _ _ _ ⟨rfl, rfl, rfl⟩
  · cases climbs.unique rack_climbs.1
    exact empty _ _ _ ⟨rfl, rfl, rfl⟩

/-- On a rack a call of `Seal` finds the method behind the field of its type, and `Item` is an array
of integers. -/
theorem rack_finds : crateScope.findMember (.named ⟨1⟩ rack []) "Seal" true =
      .ok (some (.methods intsCrate (crate.methodsNamed "Seal"))) ∧
    crateScope.findMember (.named ⟨1⟩ rack []) "Item" false =
      .ok (some (.field ⟨intsCrate, "Item", .array (Sample.type .int32) 1, false⟩)) := by
  have within : 2 ≤ crateScope.config.maxInheritanceDepth := by decide
  have closes : intsCrate.DeclaresMethod "Seal" := ⟨_, List.mem_cons_self, rfl⟩
  have item : intsCrate.Declares "Item" := .inr (.inl ⟨_, List.mem_cons_self, rfl⟩)
  constructor
  · obtain ⟨m, before, home, d, args, nearest, finds⟩ :=
      (findMember_nearest crateScope "Seal" within rack_climbs.2).1 closes
    obtain rfl | earlier : m = 2 ∨ m < 2 := by omega
    · cases nearest.climbs.unique rack_climbs.2
      exact finds.mpr fun k stands _ climbs value =>
        rack_declares_nothing stands climbs (.inr value)
    · exact absurd (.inl nearest.holds) (rack_declares_nothing earlier nearest.climbs)
  · obtain ⟨m, before, home, d, args, nearest, finds, -⟩ :=
      (findMember_nearest crateScope "Item" within rack_climbs.2).2 item
    obtain rfl | earlier : m = 2 ∨ m < 2 := by omega
    · cases nearest.climbs.unique rack_climbs.2
      exact finds
    · exact absurd nearest.holds (rack_declares_nothing earlier nearest.climbs)

/-- On a hatch the call ends with the field, though the method of the crate is the nearest one. -/
theorem hatch_hides_seal : 3 ≤ crateScope.config.maxInheritanceDepth ∧
    crateScope.snapshot.Nearest (·.DeclaresMethod "Seal") (.named ⟨1⟩ hatch []) 3 intsCrate ∧
    crateScope.findMember (.named ⟨1⟩ hatch []) "Seal" true =
      .ok (some (.field ⟨.named ⟨1⟩ hatch [], "Seal", Sample.type .int32, false⟩)) ∧
    crateScope.bind (.invoke 0 (.member 0 (.name 0 "h" []) "Seal" []) []) =
      .error .methodNameExpected := by
  have declares : (ClosedType.named ⟨1⟩ hatch []).Declares "Seal" :=
    .inr (.inl ⟨_, List.mem_cons_self, rfl⟩)
  have finds : crateScope.findMember (.named ⟨1⟩ hatch []) "Seal" true =
      .ok (some (.field ⟨.named ⟨1⟩ hatch [], "Seal", Sample.type .int32, false⟩)) := by
    rw [findMember, findMemberWithin_here declares]
    rfl
  refine ⟨by decide, ⟨?_, ⟨_, List.mem_cons_self, rfl⟩, ?_⟩, finds, bind_invoke_field rfl rfl finds⟩
  · exact (Snapshot.climbs_succ rfl).mpr rack_climbs.2
  · intro m before nearer climbs method
    cases m with
    | zero =>
      cases climbs
      simp [ClosedType.DeclaresMethod, hatch, TypeDeclaration.define] at method
    | succ m =>
      have climbs := (Snapshot.climbs_succ rfl).mp climbs
      exact rack_declares_nothing (Nat.lt_of_succ_lt_succ before) climbs (.inl method)

end Instance

end Bound.Scope

end DebugExpr
