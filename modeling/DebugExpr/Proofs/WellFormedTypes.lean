import DebugExpr.Proofs.BoundTypes
import DebugExpr.Proofs.UnrelatedModules

/-! Well-formed types of bound terms. A type is well formed if every definition in it is the one that
its module has under the definition's token, and is applied to as many arguments as it has
parameters. Where tokens are unique in a module these are the types that the snapshot holds. -/
namespace DebugExpr.Metadata.Snapshot

variable {s : Snapshot} {type : ClosedType}

/-- The module at the id has the definition under the token that the definition states. -/
def Stores (s : Snapshot) (home : ModuleId) (d : TypeDefinition) : Prop :=
  ∃ m, s.get? home = some m ∧ m.typeAt? d.token = some d

/-- At every depth definitions are stored ones and have as many arguments as parameters. -/
inductive WellFormed (s : Snapshot) : ClosedType → Prop
  | named {home : ModuleId} {d : TypeDefinition} {args : List ClosedType}
    (stored : s.Stores home d) (arity : args.length = d.genericParams.length)
    (wellFormed : ∀ arg ∈ args, WellFormed s arg) : WellFormed s (.named home d args)
  | array {element : ClosedType} {rank : Nat} (wellFormed : WellFormed s element) :
    WellFormed s (.array element rank)

/-- A token is that of one definition of its module, as it is in a module that was built from
declarations. -/
def TokensUnique (s : Snapshot) : Prop :=
  ∀ m ∈ s.modules, (m.types.map (·.token)).Nodup

/-- What a search by a key finds is what has the key, if keys occur once. -/
theorem find?_eq_some_of_nodup {α β : Type} [BEq β] [LawfulBEq β] {key : α → β} {l : List α} {a : α}
    (unique : (l.map key).Nodup) (member : a ∈ l) : l.find? (key · == key a) = some a := by
  have present : (l.find? (key · == key a)).isSome := by
    rw [List.find?_isSome]
    exact ⟨a, member, beq_self_eq_true _⟩
  obtain ⟨other, found⟩ := Option.isSome_iff_exists.mp present
  have same : key other = key a := by simpa using List.find?_some found
  have listed : other ∈ l := List.mem_of_find?_eq_some found
  rw [found, List.inj_on_of_nodup_map unique listed member same]

theorem typeAt?_eq_some {m : Module} {d : TypeDefinition} (unique : (m.types.map (·.token)).Nodup)
    (member : d ∈ m.types) : m.typeAt? d.token = some d :=
  find?_eq_some_of_nodup unique member

theorem WellFormed.holds (wellFormed : s.WellFormed type) : s.Holds type := by
  induction wellFormed with
  | named stored arity _ ih =>
    obtain ⟨m, loaded, found⟩ := stored
    exact .named ⟨m, loaded, List.mem_of_find?_eq_some found⟩ arity.symm ih
  | array _ ih => exact .array ih

theorem Holds.wellFormed (unique : s.TokensUnique) (held : s.Holds type) : s.WellFormed type := by
  induction held with
  | named loads arity _ ih =>
    obtain ⟨m, loaded, member⟩ := loads
    exact .named ⟨m, loaded, typeAt?_eq_some (unique m (get?_mem loaded)) member⟩ arity.symm ih
  | array _ ih => exact .array ih

end DebugExpr.Metadata.Snapshot

namespace DebugExpr.Bound
open Metadata Source

/-- Where the types of the locals are well formed, so is every type that a bound term states. Of a
module that gives one token twice nothing is said of what is under the token. -/
theorem Scope.bound_types_wellFormed {s : Scope} {home : ModuleId} {typeName methodName : String}
    {f : Frame} {locals : List FrameLocal}
    (found : Frame.find s.snapshot home typeName methodName = .ok f)
    (suspended : s.frame = f.withLocals locals)
    (held : ∀ slot ∈ locals, s.snapshot.Holds slot.type)
    {expr : Expr} {t : Term} (bound : s.bind expr = .ok t) :
    ∀ u ∈ t.subterms, ∀ type ∈ u.stated,
      s.snapshot.Holds type ∧ (s.snapshot.TokensUnique → s.snapshot.WellFormed type) := by
  have frame : s.frame.Held s.snapshot := by
    rw [suspended]
    exact (Frame.find_held found).withLocals held
  intro u inside type stated
  have holds : s.snapshot.Holds type := bind_held frame bound u inside type stated
  exact ⟨holds, holds.wellFormed⟩

section Instance
open Sample

/-- A generic class with a generic method: `Box<T> { T Item; Box<U> With<U>(U value); }`. -/
def box : TypeDefinition :=
  TypeDeclaration.define
    { fullName := "Box\x601"
      kind := .classType
      genericParams := ["T"]
      fields := [⟨"Item", .typeParameter 0, false⟩]
      methods := [⟨"With", false, ["U"], [⟨"value", .methodParameter 0, false⟩],
        some (.named none "Box\x601" [.methodParameter 0])⟩] }
    (.typeDefinition 1)

/-- An array of boxes of `int` is in the local `boxes`. -/
def boxLocals : List FrameLocal :=
  [⟨"boxes", .array (.named ⟨1⟩ box [type .int32]) 1⟩]

def boxScope : Scope :=
  { scope [] [] with
    snapshot :=
      (Snapshot.empty.add core).add (.ofDefinitions ⟨"App", ⟨1, 0, 0, 0⟩, none, none⟩ [box])
    frame := ⟨⟨0⟩, .named ⟨0⟩ program [], "Stop", true, [], boxLocals⟩ }

/-- The call `boxes[0].With(boxes)`, whose type argument is inferred. -/
def boxOfBoxes : Expr :=
  .invoke 0 (.member 0 (.index 0 (.name 0 "boxes" []) [.literal 0 (.integer 0)]) "With" [])
    [(.value, .name 0 "boxes" [])]

theorem boxScope_tokensUnique : boxScope.snapshot.TokensUnique := by
  have unique : boxScope.snapshot.modules.all fun m => decide (m.types.map (·.token)).Nodup := by
    decide +kernel
  simpa [Snapshot.TokensUnique] using unique

theorem boxLocals_held : ∀ slot ∈ boxLocals, boxScope.snapshot.Holds slot.type := by
  have integer : boxScope.snapshot.Holds (type .int32) := Snapshot.holds_add (holds_type .int32)
  intro slot member
  obtain rfl := List.mem_singleton.mp member
  refine .array (.named ⟨_, rfl, ?_⟩ (by decide) (List.forall_mem_singleton.mpr integer))
  exact List.mem_singleton_self box

/-- The inferred argument is an array of generic types, and is well formed. -/
theorem boxOfBoxes_wellFormed : ∃ t, boxScope.bind boxOfBoxes = .ok t ∧
    ∀ u ∈ t.subterms, ∀ type ∈ u.stated, boxScope.snapshot.WellFormed type := by
  have found : Frame.find boxScope.snapshot ⟨0⟩ "Program" "Stop" =
      .ok ⟨⟨0⟩, .named ⟨0⟩ program [], "Stop", true, [], []⟩ := rfl
  obtain ⟨t, bound, -⟩ : ∃ t, boxScope.bind boxOfBoxes = .ok t ∧ t.type?.isSome :=
    exists_ok_of_any (by decide +kernel)
  refine ⟨t, bound, fun u inside type stated => ?_⟩
  exact (Scope.bound_types_wellFormed found rfl boxLocals_held bound u inside type stated).2
    boxScope_tokensUnique

end Instance

end DebugExpr.Bound
