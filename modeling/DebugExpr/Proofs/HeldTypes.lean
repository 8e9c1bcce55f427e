import Mathlib.Data.List.Nodup
import DebugExpr.Proofs.BindingSteps

/-! Types that a snapshot holds: each definition in them is one of a loaded module and has as many
arguments as parameters. Types are made from signatures, from names as metadata and users write them,
from handles, from the core library, and by inference from the types of arguments. Each of these
ways checks the number of arguments in a place of its own, and each makes held types where the types
that it starts from are held. -/
namespace DebugExpr.Metadata

/-- The definition of the type is that of a loaded module. -/
def Snapshot.Loads (s : Snapshot) : ClosedType → Prop
  | .named home d _ => ∃ m, s.get? home = some m ∧ d ∈ m.types
  | .array .. => True

/-- All definitions of the type are loaded, and none lacks arguments or has too many. -/
inductive Snapshot.Holds (s : Snapshot) : ClosedType → Prop
  | named {home : ModuleId} {d : TypeDefinition} {args : List ClosedType}
    (loads : s.Loads (.named home d args)) (arity : d.genericParams.length = args.length)
    (held : ∀ arg ∈ args, Holds s arg) : Holds s (.named home d args)
  | array {element : ClosedType} {rank : Nat} (held : Holds s element) :
    Holds s (.array element rank)

namespace Snapshot
variable {s : Snapshot} {m : Module} {type : ClosedType} {d : TypeDefinition} {home : ModuleId}
  {name : String} {args : List ClosedType}

theorem Holds.loads (held : s.Holds type) : s.Loads type := by
  cases held with
  | named loads => exact loads
  | array => trivial

theorem Holds.ofArgs (held : s.Holds type) : ∀ arg ∈ type.args, s.Holds arg := by
  cases held with
  | named _ _ held => exact held
  | array => simp [ClosedType.args]

theorem Holds.ofArray {element : ClosedType} {rank : Nat} (held : s.Holds (.array element rank)) :
    s.Holds element := by
  cases held with
  | array held => exact held

theorem Holds.plain (loads : s.Loads (.named home d [])) (plain : d.genericParams.length = 0) :
    s.Holds (.named home d []) :=
  .named loads plain (by simp)

theorem index_id {i : Nat} (found : s.modules[i]? = some m) : m.id.index = i := by
  have ids := congrArg (·[i]?) s.ids_eq
  obtain ⟨bound, rfl⟩ := List.getElem?_eq_some_iff.mp found
  simpa [bound] using ids

/-- A module of a snapshot stands at its id. -/
theorem get?_id (member : m ∈ s.modules) : s.get? m.id = some m := by
  obtain ⟨i, found⟩ := List.mem_iff_getElem?.mp member
  rw [get?, index_id found, found]

theorem id_of_get? (found : s.get? home = some m) : m.id = home :=
  congrArg ModuleId.mk (index_id found)

theorem get?_mem (found : s.get? home = some m) : m ∈ s.modules :=
  List.mem_of_getElem? found

/-- Loaded types that count as the same have one definition. -/
theorem definition?_eq {other : ClosedType}
    (tokens : ∀ m ∈ s.modules, (m.types.map (·.token)).Nodup)
    (loads : s.Loads type) (loadsOther : s.Loads other) (same : (type == other) = true) :
    type.definition? = other.definition? := by
  cases type with
  | array =>
    cases other with
    | array => rfl
    | named => cases same
  | named home d args =>
    cases other with
    | array => cases same
    | named home' d' args' =>
      obtain ⟨m, found, member⟩ := loads
      obtain ⟨m', found', member'⟩ := loadsOther
      change ClosedType.same _ _ = true at same
      simp only [ClosedType.same, Bool.and_eq_true, beq_iff_eq] at same
      obtain ⟨⟨rfl, token⟩, -⟩ := same
      obtain rfl : m = m' := Option.some.inj (found.symm.trans found')
      have distinct := tokens m (get?_mem found)
      exact congrArg some (List.inj_on_of_nodup_map distinct member member' token)

theorem loads_typeIn? (member : m ∈ s.modules) (found : typeIn? name m = some (home, d)) :
    s.Loads (.named home d args) := by
  simp only [typeIn?, Option.map_eq_some_iff, Prod.mk.injEq] at found
  obtain ⟨_, found, rfl, rfl⟩ := found
  exact ⟨m, get?_id member, List.mem_of_find?_eq_some found⟩

theorem holds_coreType (held : ∀ arg ∈ args, s.Holds arg) (h : s.coreType name args = .ok type) :
    s.Holds type := by
  unfold coreType at h
  split at h
  · cases h
  · rename_i core found
    split at h
    · cases h
    · rename_i d named
      split at h
      · rename_i count
        obtain rfl := Except.ok.inj h
        have member : core ∈ s.modules := List.mem_of_find?_eq_some found
        exact .named ⟨core, get?_id member, List.mem_of_find?_eq_some named⟩ count held
      · cases h

theorem holds_primitive {p : Primitive} (h : s.primitive p = .ok type) : s.Holds type :=
  holds_coreType (by simp) h

theorem locate_loads {scope : ModuleId} {assembly : Option String}
    (h : s.locate scope assembly name = .ok (home, d)) : s.Loads (.named home d args) := by
  unfold locate at h
  split at h
  · split at h
    · cases h
    · rename_i m found
      split at h
      · rename_i named
        obtain rfl := Except.ok.inj h
        exact loads_typeIn? (List.mem_of_find?_eq_some found) named
      · cases h
  · split at h
    · rename_i found
      obtain rfl := Except.ok.inj h
      rcases Option.or_eq_some_iff.mp found with own | ⟨-, core⟩
      · obtain ⟨m, loaded, named⟩ := Option.bind_eq_some_iff.mp own
        exact loads_typeIn? (get?_mem loaded) named
      · obtain ⟨m, loaded, named⟩ := Option.bind_eq_some_iff.mp core
        exact loads_typeIn? (List.mem_of_find?_eq_some loaded) named
    · cases h

section Signatures
variable {scope : ModuleId} {typeArgs methodArgs : List ClosedType}

mutual

/-- Held types for the generic parameters of a signature make a held type. -/
theorem holds_bind (heldType : ∀ arg ∈ typeArgs, s.Holds arg)
    (heldMethod : ∀ arg ∈ methodArgs, s.Holds arg) :
    (signature : Signature) → {type : ClosedType} →
      s.bind scope typeArgs methodArgs signature = .ok type → s.Holds type
  | .named assembly name args, type, h => by
    obtain ⟨⟨home, d⟩, located, h⟩ := bind_eq_ok.mp h
    by_cases count : d.genericParams.length = args.length
    · simp only [count, ne_eq, not_true_eq_false, if_false] at h
      obtain ⟨types, binds, h⟩ := bind_eq_ok.mp h
      obtain rfl := pure_eq_ok.mp h
      obtain ⟨length, held⟩ := holds_bindAll heldType heldMethod args binds
      exact .named (locate_loads located) (count.trans length.symm) held
    · simp [count] at h
  | .typeParameter index, type, h => by
    unfold bind at h
    split at h
    · rename_i found
      obtain rfl := Except.ok.inj h
      exact heldType _ (List.mem_of_getElem? found)
    · cases h
  | .methodParameter index, type, h => by
    unfold bind at h
    split at h
    · rename_i found
      obtain rfl := Except.ok.inj h
      exact heldMethod _ (List.mem_of_getElem? found)
    · cases h
  | .array element rank, type, h => by
    obtain ⟨elementType, binds, h⟩ := bind_eq_ok.mp h
    obtain rfl := pure_eq_ok.mp h
    exact .array (holds_bind heldType heldMethod element binds)

theorem holds_bindAll (heldType : ∀ arg ∈ typeArgs, s.Holds arg)
    (heldMethod : ∀ arg ∈ methodArgs, s.Holds arg) :
    (signatures : List Signature) → {types : List ClosedType} →
      s.bindAll scope typeArgs methodArgs signatures = .ok types →
      types.length = signatures.length ∧ ∀ type ∈ types, s.Holds type
  | [], types, h => by
    obtain rfl := Except.ok.inj h
    simp
  | signature :: rest, types, h => by
    obtain ⟨type, binds, h⟩ := bind_eq_ok.mp h
    obtain ⟨types, bindsRest, h⟩ := bind_eq_ok.mp h
    obtain rfl := pure_eq_ok.mp h
    obtain ⟨length, held⟩ := holds_bindAll heldType heldMethod rest bindsRest
    exact ⟨by simp [length],
      List.forall_mem_cons.mpr ⟨holds_bind heldType heldMethod signature binds, held⟩⟩

end

end Signatures

theorem holds_baseType {base : ClosedType} (held : s.Holds type)
    (h : s.baseType type = .ok (some base)) : s.Holds base := by
  cases type with
  | named home d args =>
    simp only [baseType] at h
    split at h
    · obtain ⟨found, binds, h⟩ := bind_eq_ok.mp h
      obtain rfl := Option.some.inj (pure_eq_ok.mp h)
      exact holds_bind held.ofArgs (by simp) _ binds
    · cases h
  | array element rank =>
    simp only [baseType] at h
    split at h
    · rename_i named
      obtain rfl := Option.some.inj (Except.ok.inj h)
      exact holds_coreType (by simp) named
    · obtain ⟨found, named, h⟩ := bind_eq_ok.mp h
      obtain rfl := Option.some.inj (pure_eq_ok.mp h)
      exact holds_primitive named

end Snapshot

end DebugExpr.Metadata

namespace DebugExpr.QualifiedName
open Metadata

namespace Resolution
variable {α β : Type} {x : Resolution α} {y : Resolution β}

theorem map_eq_ok {f : α → β} {b : β} (h : x.map f = .ok b) : ∃ a, x = .ok a ∧ f a = b :=
  DebugExpr.map_eq_ok.mp h

theorem both_eq_ok {a : α} {b : β} (h : both x y = .ok (a, b)) : x = .ok a ∧ y = .ok b := by
  unfold both at h
  split at h <;> cases h
  exact ⟨rfl, rfl⟩

theorem all_eq_ok {rs : List (Resolution α)} {as : List α} (h : all rs = .ok as) :
    rs = as.map .ok := by
  induction rs generalizing as with
  | nil =>
    obtain rfl : [] = as := Except.ok.inj h
    rfl
  | cons r rest ih =>
    obtain ⟨⟨a, as'⟩, both, rfl⟩ := map_eq_ok h
    obtain ⟨rfl, further⟩ := both_eq_ok both
    rw [ih further, List.map_cons]

end Resolution

namespace Resolver
variable {r : Resolver} {t : QualifiedName} {type : ClosedType}

theorem candidates_loaded {origin : Origin} {modules : List Module}
    (h : r.candidates origin = .ok modules) : ∀ m ∈ modules, m ∈ r.snapshot.modules := by
  intro m member
  unfold candidates at h
  split at h
  · split at h
    · cases h
    · simp only [List.partition_eq_filter_filter] at h
      obtain rfl := Except.ok.inj h
      rcases List.mem_append.mp member with sameVersion | other
      · exact (List.mem_filter.mp (List.mem_filter.mp sameVersion).1).1
      · exact (List.mem_filter.mp (List.mem_filter.mp other).1).1
  · split at h
    · rename_i found
      obtain rfl := Except.ok.inj h
      rw [List.mem_singleton.mp member]
      exact Snapshot.get?_mem found
    · cases h
  · obtain rfl := Except.ok.inj h
    rcases List.mem_append.mp member with context | core
    · obtain ⟨home, -, loaded⟩ := Option.bind_eq_some_iff.mp (Option.mem_toList.mp context)
      exact Snapshot.get?_mem loaded
    · exact List.mem_of_find?_eq_some (Option.mem_toList.mp (List.mem_filter.mp core).1)

theorem locate_eq_ok {home : ModuleId} {d : TypeDefinition} (h : r.locate t = .ok (home, d))
    (args : List ClosedType) :
    r.snapshot.Loads (.named home d args) ∧ d.genericParams.length = t.args.length := by
  obtain ⟨modules, searched, h⟩ := bind_eq_ok.mp h
  split at h
  · rename_i found
    split at h
    · rename_i count
      cases pure_eq_ok.mp h
      obtain ⟨m, member, named⟩ := List.exists_of_findSome?_eq_some found
      exact ⟨Snapshot.loads_typeIn? (candidates_loaded searched m member) named, count⟩
    · simp at h
  · simp at h

theorem holds_applySuffixes (suffixes : List Suffix) (held : r.snapshot.Holds type) :
    r.snapshot.Holds (applySuffixes suffixes type) := by
  induction suffixes generalizing type with
  | nil => exact held
  | cons suffix rest ih =>
    cases suffix with
    | array rank => exact ih (.array held)
    | pointer | byRef => exact ih held

theorem holds_resolveWithin {levels : Nat} (h : r.resolveWithin levels t = .ok type) :
    r.snapshot.Holds type := by
  induction levels generalizing t type with
  | zero => cases h
  | succ levels ih =>
    unfold resolveWithin at h
    split at h
    · cases h
    · obtain ⟨⟨⟨home, d⟩, types⟩, both, rfl⟩ := Resolution.map_eq_ok h
      obtain ⟨located, resolved⟩ := Resolution.both_eq_ok both
      have each := Resolution.all_eq_ok resolved
      obtain ⟨loads, count⟩ := locate_eq_ok located types
      refine holds_applySuffixes _ (.named loads ?_ ?_)
      · rw [count]
        simpa using congrArg List.length each
      · intro type member
        have outcome : (.ok type : Resolution ClosedType) ∈ types.map .ok :=
          List.mem_map_of_mem member
        rw [← each] at outcome
        obtain ⟨arg, -, resolves⟩ := List.mem_map.mp outcome
        exact ih resolves

theorem holds_resolveType (h : r.resolveType t = .ok type) : r.snapshot.Holds type :=
  holds_resolveWithin (mapError_eq_ok.mp h)

end Resolver

end DebugExpr.QualifiedName

namespace DebugExpr.Pseudo
open Metadata QualifiedName

variable {r : Resolver} {type : ClosedType}

theorem holds_handleType {s : Snapshot} {home : ModuleId} {token : Token}
    (h : handleType s home token = .ok type) : s.Holds type := by
  unfold handleType at h
  split at h
  · cases h
  · rename_i found
    split at h
    · rename_i plain
      obtain rfl := Except.ok.inj h
      obtain ⟨m, loaded, named⟩ := Option.bind_eq_some_iff.mp found
      obtain ⟨_, isAt, same⟩ := Option.map_eq_some_iff.mp named
      cases same
      have loads := Snapshot.get?_id (Snapshot.get?_mem loaded)
      exact .plain ⟨m, loads, List.mem_of_find?_eq_some isAt⟩ (by simpa using plain)
    · cases h

theorem holds_entryType {entry : Entry} (h : entryType r entry = .ok type) :
    r.snapshot.Holds type := by
  unfold entryType at h
  split at h
  · exact holds_handleType h
  · exact Resolver.holds_resolveType h
  · split at h
    · exact Resolver.holds_resolveType h
    · cases h

/-- The types of a bound name are held. -/
structure Occurrence.Held (s : Snapshot) (o : Occurrence) : Prop where
  type : s.Holds o.type
  accessorType : s.Holds o.accessorType
  typeArgument : ∀ type ∈ o.call.typeArgument, s.Holds type

/-- The accessor of a pseudo-variable is not generic and answers with a value. -/
theorem ofKind?_eq_some {kind : Kind} {call : Call} (h : Call.ofKind? kind = some call) :
    call.typeArgument = none ∧ call.yieldsAddress = false := by
  cases kind with
  | returnValue index =>
    obtain ⟨-, rfl⟩ : _ ∧ _ = call := by
      simpa [Call.ofKind?, Accessor.ofKind?] using h
    exact ⟨rfl, rfl⟩
  | ordinary => simp [Call.ofKind?, Accessor.ofKind?] at h
  | exception | stowedException | objectId | address =>
    obtain rfl : _ = call := by
      simpa [Call.ofKind?, Accessor.ofKind?] using h
    exact ⟨rfl, rfl⟩

theorem bindKind_held {context : Context} {lexeme returned : String} {kind : Kind}
    {o : Occurrence} (h : bindKind r context lexeme kind returned = .ok (some o)) :
    o.Held r.snapshot := by
  obtain ⟨accessorType, named, h⟩ := bind_eq_ok.mp h
  have heldAccessor : r.snapshot.Holds accessorType :=
    Snapshot.holds_coreType (by simp) (mapError_eq_ok.mp named)
  split at h
  · obtain ⟨type, typed, h⟩ := bind_eq_ok.mp h
    obtain ⟨call, reads, rfl⟩ := Option.map_eq_some_iff.mp (pure_eq_ok.mp h)
    exact ⟨holds_entryType typed, heldAccessor, by simp [(ofKind?_eq_some reads).1]⟩
  · obtain ⟨type, typed, h⟩ := bind_eq_ok.mp h
    obtain rfl := pure_eq_ok.mp typed
    obtain ⟨call, reads, rfl⟩ := Option.map_eq_some_iff.mp (pure_eq_ok.mp h)
    exact ⟨heldAccessor, heldAccessor, by simp [(ofKind?_eq_some reads).1]⟩

theorem bindDeclared_held {context : Context} {lexeme : String} {o : Occurrence}
    (h : bindDeclared r context lexeme = .ok (some o)) : o.Held r.snapshot := by
  unfold bindDeclared at h
  split at h
  · cases h
  · obtain ⟨type, typed, h⟩ := bind_eq_ok.mp h
    obtain rfl := Option.some.inj (pure_eq_ok.mp h)
    have held := holds_entryType typed
    exact ⟨held, held, by simpa [Call.variableAddress] using held⟩

theorem bind_held {context : Context} {lexeme : String} {o : Occurrence}
    (h : bind r context lexeme = .ok (some o)) : o.Held r.snapshot := by
  unfold bind at h
  split at h
  · exact bindDeclared_held h
  · split at h
    · exact bindKind_held h
    · cases h

end DebugExpr.Pseudo

namespace DebugExpr.Bound
open Metadata Source

section Inference
variable {s : Snapshot} {inferred inferred' : Inferred} {type : ClosedType}

/-- The types inferred so far are held. -/
def Inferred.Held (s : Snapshot) (inferred : Inferred) : Prop :=
  ∀ type, some type ∈ inferred → s.Holds type

theorem Inferred.assign_held {index : Nat} (held : inferred.Held s) (heldType : s.Holds type)
    (h : inferred.assign index type = some inferred') : inferred'.Held s := by
  unfold assign at h
  split at h
  · cases h
  · obtain rfl := Option.some.inj h
    intro other member
    rcases List.mem_or_eq_of_mem_set member with before | new
    · exact held other before
    · obtain rfl := Option.some.inj new
      exact heldType
  · split at h
    · obtain rfl := Option.some.inj h
      exact held
    · cases h

mutual

theorem matchSignature_held : (signature : Signature) → {type : ClosedType} →
    {inferred inferred' : Inferred} → inferred.Held s → s.Holds type →
      matchSignature signature type inferred = some inferred' → inferred'.Held s
  | .methodParameter index, type, inferred, inferred', held, heldType, h => by
    rw [matchSignature] at h
    exact Inferred.assign_held held heldType h
  | .array element rank, .array actual actualRank, inferred, inferred', held, heldType, h => by
    rw [matchSignature] at h
    split at h
    · exact matchSignature_held element held heldType.ofArray h
    · obtain rfl := Option.some.inj h
      exact held
  | .named _ _ signatures, type, inferred, inferred', held, heldType, h => by
    rw [matchSignature] at h
    exact matchSignatures_held signatures held heldType.ofArgs h
  | .array .., .named .., inferred, inferred', held, heldType, h => by
    obtain rfl := Option.some.inj h
    exact held
  | .typeParameter _, type, inferred, inferred', held, heldType, h => by
    rw [matchSignature] at h
    obtain rfl := Option.some.inj h
    exact held

theorem matchSignatures_held : (signatures : List Signature) → {types : List ClosedType} →
    {inferred inferred' : Inferred} → inferred.Held s → (∀ type ∈ types, s.Holds type) →
      matchSignatures signatures types inferred = some inferred' → inferred'.Held s
  | signature :: signatures, type :: types, inferred, inferred', held, heldTypes, h => by
    obtain ⟨next, first, h⟩ := Option.bind_eq_some_iff.mp h
    obtain ⟨heldType, heldTypes⟩ := List.forall_mem_cons.mp heldTypes
    exact matchSignatures_held signatures (matchSignature_held signature held heldType first)
      heldTypes h
  | [], types, inferred, inferred', held, heldTypes, h => by
    rw [matchSignatures] at h
    · obtain rfl := Option.some.inj h
      exact held
    · simp
  | _ :: _, [], inferred, inferred', held, heldTypes, h => by
    obtain rfl := Option.some.inj h
    exact held

end

theorem matchParameters_held {params : List Parameter} {args : List Term}
    (held : inferred.Held s) (heldArgs : ∀ arg ∈ args, ∀ type, arg.type? = some type → s.Holds type)
    (h : matchParameters params args inferred = some inferred') : inferred'.Held s := by
  induction params generalizing args inferred with
  | nil =>
    obtain rfl := Option.some.inj h
    exact held
  | cons p params ih =>
    cases args with
    | nil =>
      obtain rfl := Option.some.inj h
      exact held
    | cons arg args =>
      obtain ⟨heldArg, heldArgs⟩ := List.forall_mem_cons.mp heldArgs
      simp only [matchParameters] at h
      split at h
      · rename_i type typed
        obtain ⟨next, first, h⟩ := Option.bind_eq_some_iff.mp h
        exact ih (matchSignature_held _ held (heldArg type typed) first) heldArgs h
      · exact ih held heldArgs h

theorem mapM_id_eq_some {α : Type} {xs : List (Option α)} {ys : List α}
    (h : xs.mapM id = some ys) : xs = ys.map some := by
  induction xs generalizing ys with
  | nil => simp_all
  | cons x rest ih =>
    rw [List.mapM_cons] at h
    obtain ⟨y, present, h⟩ := Option.bind_eq_some_iff.mp h
    obtain ⟨ys', further, h⟩ := Option.bind_eq_some_iff.mp h
    obtain rfl := Option.some.inj h
    rw [ih further, List.map_cons, ← present]
    rfl

/-- Inference takes parts of held types. -/
theorem inferTypeArgs_held {m : Method} {args : List Term} {types : List ClosedType}
    (heldArgs : ∀ arg ∈ args, ∀ type, arg.type? = some type → s.Holds type)
    (h : inferTypeArgs m args = some types) : ∀ type ∈ types, s.Holds type := by
  obtain ⟨inferred, matched, all⟩ := Option.bind_eq_some_iff.mp h
  have start : Inferred.Held s (m.genericParams.map fun _ => none) := by simp [Inferred.Held]
  intro type member
  refine matchParameters_held start heldArgs matched type ?_
  rw [mapM_id_eq_some all]
  exact List.mem_map_of_mem member

end Inference

/-- The types of a frame are held. -/
structure Frame.Held (f : Frame) (s : Snapshot) : Prop where
  containing : s.Holds f.containing
  locals : ∀ slot ∈ f.locals, s.Holds slot.type
  parameters : ∀ slot ∈ f.parameters, s.Holds slot.type

/-- The types with which a member is named are held. -/
def Member.Held (s : Snapshot) : Member → Prop
  | .field m | .property m => s.Holds m.declaring ∧ s.Holds m.type
  | .methods declaring _ => s.Holds declaring

namespace Frame
variable {s : Snapshot}

theorem bindParameters_held {home : ModuleId} {params : List Parameter}
    {slots : List FrameParameter} (h : bindParameters s home params = .ok slots) :
    ∀ slot ∈ slots, s.Holds slot.type := by
  induction params generalizing slots with
  | nil =>
    obtain rfl := Except.ok.inj h
    simp
  | cons p rest ih =>
    obtain ⟨type, binds, h⟩ := bind_eq_ok.mp h
    obtain ⟨slots, bindsRest, h⟩ := bind_eq_ok.mp h
    obtain rfl := pure_eq_ok.mp h
    exact List.forall_mem_cons.mpr
      ⟨Snapshot.holds_bind (by simp) (by simp) _ binds, ih bindsRest⟩

/-- A frame that was found in a snapshot is of its types. -/
theorem find_held {home : ModuleId} {typeName methodName : String} {f : Frame}
    (h : find s home typeName methodName = .ok f) : f.Held s := by
  unfold find at h
  split at h
  · cases h
  · rename_i d found
    split at h
    · cases h
    · rename_i plain
      split at h
      · cases h
      · split at h
        · cases h
        · obtain ⟨parameters, binds, h⟩ := bind_eq_ok.mp h
          obtain rfl := pure_eq_ok.mp h
          obtain ⟨m, loaded, named⟩ := Option.bind_eq_some_iff.mp found
          refine ⟨.plain ⟨m, loaded, List.mem_of_find?_eq_some named⟩ ?_, by simp,
            bindParameters_held binds⟩
          simpa using plain

theorem Held.withLocals {f : Frame} {locals : List FrameLocal} (held : f.Held s)
    (heldLocals : ∀ slot ∈ locals, s.Holds slot.type) : (f.withLocals locals).Held s where
  containing := held.containing
  locals := List.forall_mem_append.mpr ⟨held.locals, heldLocals⟩
  parameters := held.parameters

end Frame

namespace Scope
variable {s : Scope} {type : ClosedType}

theorem locateType?_loads {name : String} {home : ModuleId} {d : TypeDefinition}
    (h : s.locateType? name = some (home, d)) (args : List ClosedType) :
    s.snapshot.Loads (.named home d args) := by
  obtain ⟨m, member, found⟩ := List.exists_of_findSome?_eq_some h
  simp only [List.mem_append, Option.mem_toList] at member
  rcases member with (own | core) | listed
  · exact Snapshot.loads_typeIn? (Snapshot.get?_mem own) found
  · exact Snapshot.loads_typeIn? (List.mem_of_find?_eq_some core) found
  · exact Snapshot.loads_typeIn? listed found

theorem findNamed?_loads {segments : List (String × Nat)} {name : String} {home : ModuleId}
    {d : TypeDefinition} (h : s.findNamed? segments = some (name, home, d))
    (args : List ClosedType) : s.snapshot.Loads (.named home d args) := by
  obtain ⟨count, -, found⟩ := List.exists_of_findSome?_eq_some h
  dsimp only at found
  split at found
  · cases found
  · obtain ⟨_, located, same⟩ := Option.map_eq_some_iff.mp found
    cases same
    exact locateType?_loads located args

mutual

/-- A type as the user writes it is held, whatever the frame. -/
theorem holds_resolveType : (written : TypeExpr) → {type : ClosedType} →
    s.resolveType written = .ok type → s.snapshot.Holds type
  | .keyword p, type, h => Snapshot.holds_primitive h
  | .nullable inner, type, h => by
    obtain ⟨innerType, resolves, h⟩ := bind_eq_ok.mp h
    exact Snapshot.holds_coreType
      (List.forall_mem_singleton.mpr (holds_resolveType inner resolves)) h
  | .array element rank, type, h => by
    obtain ⟨elementType, resolves, h⟩ := bind_eq_ok.mp h
    obtain rfl := pure_eq_ok.mp h
    exact .array (holds_resolveType element resolves)
  | .named isGlobal segments, type, h => by
    obtain ⟨args, resolves, h⟩ := bind_eq_ok.mp h
    split at h
    · simp at h
    · rename_i found
      split at h
      · simp at h
      · rename_i count
        obtain rfl := pure_eq_ok.mp h
        exact .named (findNamed?_loads found args) (Decidable.not_not.mp count)
          (holds_resolveSegments segments resolves)

theorem holds_resolveSegments : (segments : List (String × List TypeExpr)) →
    {types : List ClosedType} → s.resolveSegments segments = .ok types →
      ∀ type ∈ types, s.snapshot.Holds type
  | [], types, h => by
    obtain rfl := Except.ok.inj h
    simp
  | (_, args) :: rest, types, h => by
    obtain ⟨own, resolves, h⟩ := bind_eq_ok.mp h
    obtain ⟨types, resolvesRest, h⟩ := bind_eq_ok.mp h
    obtain rfl := pure_eq_ok.mp h
    exact List.forall_mem_append.mpr
      ⟨holds_resolveTypes args resolves, holds_resolveSegments rest resolvesRest⟩

theorem holds_resolveTypes : (written : List TypeExpr) → {types : List ClosedType} →
    s.resolveTypes written = .ok types → ∀ type ∈ types, s.snapshot.Holds type
  | [], types, h => by
    obtain rfl := Except.ok.inj h
    simp
  | first :: rest, types, h => by
    obtain ⟨type, resolves, h⟩ := bind_eq_ok.mp h
    obtain ⟨types, resolvesRest, h⟩ := bind_eq_ok.mp h
    obtain rfl := pure_eq_ok.mp h
    exact List.forall_mem_cons.mpr
      ⟨holds_resolveType first resolves, holds_resolveTypes rest resolvesRest⟩

end

theorem holds_memberRef {declaring : ClosedType} {home : ModuleId} {args : List ClosedType}
    {m : Metadata.Member} {r : MemberRef} (held : s.snapshot.Holds declaring)
    (heldArgs : ∀ arg ∈ args, s.snapshot.Holds arg) (h : s.memberRef declaring home args m = .ok r) :
    s.snapshot.Holds r.declaring ∧ s.snapshot.Holds r.type := by
  obtain ⟨type, binds, h⟩ := bind_eq_ok.mp h
  obtain rfl := pure_eq_ok.mp h
  exact ⟨held, Snapshot.holds_bind heldArgs (by simp) _ binds⟩

theorem declaredMember_held {name : String} {invoked : Bool} {found : Member}
    (held : s.snapshot.Holds type) (h : s.declaredMember name invoked type = .ok (some found)) :
    found.Held s.snapshot := by
  obtain ⟨home, d, args, rfl, rfl | ⟨written, m, binds, ⟨-, rfl⟩ | ⟨-, rfl⟩⟩⟩ :=
    declaredMember_eq_some h
  · exact held
  · exact holds_memberRef held held.ofArgs binds
  · exact holds_memberRef held held.ofArgs binds

theorem findMember_held {name : String} {invoked : Bool} {found : Member}
    (held : s.snapshot.Holds type) (h : s.findMember type name invoked = .ok (some found)) :
    found.Held s.snapshot := by
  obtain ⟨owner, held, declares⟩ := findMember_eq_some held Snapshot.holds_baseType h
  exact declaredMember_held held declares

end Scope

end DebugExpr.Bound
