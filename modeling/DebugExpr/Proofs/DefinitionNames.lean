import DebugExpr.Metadata.Snapshot
import DebugExpr.Proofs.AssemblyNames
import Mathlib.Algebra.Ring.Nat

/-! Names of declared definitions. A definition gets its namespace, the types around it and its own
name by cutting one full name, so none of these parts holds a plus sign, and joining them gives the
key under which the definition is found. -/
namespace DebugExpr

namespace Text
variable {sep : Char} {cs before after : List Char}

theorem not_mem_of_cutFirst (cut : cutFirst sep cs = some (before, after)) : sep ∉ before := by
  have found : sep ∈ cs := by simp [eq_append_of_cutFirst cut]
  obtain ⟨front, back, rfl, free⟩ := List.eq_append_cons_of_mem found
  rw [cutFirst_append free] at cut
  cases cut
  exact free

theorem cutFirst_eq_none : cutFirst sep cs = none ↔ sep ∉ cs := by
  constructor
  · intro none found
    obtain ⟨front, back, rfl, free⟩ := List.eq_append_cons_of_mem found
    rw [cutFirst_append free] at none
    cases none
  · intro free
    cases cut : cutFirst sep cs with
    | none => rfl
    | some parts => exact absurd (by simp [eq_append_of_cutFirst cut]) free

theorem cutLast_eq_some : cutLast sep cs = some (before, after) ↔
    cs = before ++ sep :: after ∧ sep ∉ after := by
  rw [cutLast, Option.map_eq_some_iff]
  constructor
  · rintro ⟨⟨back, front⟩, cut, same⟩
    cases same
    have whole := congrArg List.reverse (eq_append_of_cutFirst cut)
    rw [List.reverse_reverse] at whole
    exact ⟨by simpa using whole, by simpa using not_mem_of_cutFirst cut⟩
  · rintro ⟨rfl, free⟩
    refine ⟨(after.reverse, before.reverse), ?_, by simp⟩
    rw [List.reverse_append, List.reverse_cons, List.append_assoc]
    exact cutFirst_append (by simpa using free)

theorem cutLast_eq_none : cutLast sep cs = none ↔ sep ∉ cs := by
  rw [cutLast, Option.map_eq_none_iff, cutFirst_eq_none, List.mem_reverse]

theorem decimal?_isDigit {digits : List Char} {n : Nat} (read : decimal? digits = some n) :
    ∀ c ∈ digits, c.isDigit = true := by
  unfold decimal? at read
  split at read
  · rename_i all
    exact List.all_eq_true.mp (Bool.and_eq_true_iff.mp all).2
  · cases read

/-- What is read as a count has digits only, but for a plus sign. -/
theorem count?_isDigit {digits : List Char} {n : Nat} (read : count? digits = some n) :
    ∀ c ∈ digits, c = '+' ∨ c.isDigit = true := by
  obtain ⟨m, read, -⟩ := Option.bind_eq_some_iff.mp read
  have all := decimal?_isDigit read
  intro c member
  split at all
  · rename_i plus
    obtain ⟨rest, rfl⟩ := List.head?_eq_some_iff.mp plus
    rcases List.mem_cons.mp member with rfl | member
    · exact .inl rfl
    · exact .inr (all c member)
  · exact .inr (all c member)

end Text

namespace Metadata
open Text

/-- A name with its namespace in front. -/
def qualified (space name : String) : String :=
  (if space.isEmpty then "" else space ++ ".") ++ name

theorem qualified_cases (space name : String) :
    (space = "" ∧ qualified space name = name) ∨
      (qualified space name).toList = space.toList ++ '.' :: name.toList := by
  by_cases empty : space = ""
  · subst empty
    exact .inl ⟨rfl, String.empty_append⟩
  · have some : space.isEmpty = false := by simpa using empty
    refine .inr ?_
    simp [qualified, some]

/-- Names without plus signs are told apart when they are joined by these. -/
theorem splitOn_joined {names : List String} (someName : names ≠ [])
    (plusless : ∀ name ∈ names, '+' ∉ name.toList) :
    ("+".intercalate names).toList.splitOn '+' = names.map String.toList := by
  rw [String.toList_intercalate]
  refine List.splitOn_intercalate _ ?_ (by simpa using someName)
  simpa using plusless

theorem joined_inj {names names' : List String} (someName : names ≠ []) (someName' : names' ≠ [])
    (plusless : ∀ name ∈ names, '+' ∉ name.toList)
    (plusless' : ∀ name ∈ names', '+' ∉ name.toList) :
    "+".intercalate names = "+".intercalate names' ↔ names = names' := by
  refine ⟨fun same => ?_, congrArg _⟩
  have parts := splitOn_joined someName plusless
  rw [same, splitOn_joined someName' plusless'] at parts
  exact (List.map_inj_right fun _ _ => String.toList_inj.mp).mp parts.symm

/-- A namespace is told by the last dot. -/
theorem qualified_inj {space space' name name' : String} (dotless : '.' ∉ name.toList)
    (dotless' : '.' ∉ name'.toList) (same : qualified space name = qualified space' name') :
    space = space' ∧ name = name' := by
  have cut {space name : String} (dotless : '.' ∉ name.toList)
      (text : (qualified space name).toList = space.toList ++ '.' :: name.toList) :
      cutLast '.' (qualified space name).toList = some (space.toList, name.toList) :=
    cutLast_eq_some.mpr ⟨text, dotless⟩
  rcases qualified_cases space name with ⟨rfl, bare⟩ | text <;>
    rcases qualified_cases space' name' with ⟨rfl, bare'⟩ | text'
  · exact ⟨rfl, by rw [← bare, same, bare']⟩
  · rw [← same, bare] at text'
    exact absurd (by simp [text']) dotless
  · rw [same, bare'] at text
    exact absurd (by simp [text]) dotless'
  · have both := (cut dotless text).symm.trans (same ▸ cut dotless' text')
    simp only [Option.some.injEq, Prod.mk.injEq, String.toList_inj] at both
    exact both

/-- A namespace in front of a name does not change its arity. -/
theorem cutArity_qualified (space name : String) :
    (cutArity (qualified space name)).2 = (cutArity name).2 := by
  rcases qualified_cases space name with ⟨-, bare⟩ | text
  · rw [bare]
  unfold cutArity
  rw [text]
  cases cut : cutLast '\x60' name.toList with
  | some parts =>
    obtain ⟨before, digits⟩ := parts
    obtain ⟨same, free⟩ := cutLast_eq_some.mp cut
    have qualified : cutLast '\x60' (space.toList ++ '.' :: name.toList) =
        some (space.toList ++ '.' :: before, digits) :=
      cutLast_eq_some.mpr ⟨by rw [same, List.append_assoc, List.cons_append], free⟩
    rw [qualified]
    dsimp only
    split <;> rfl
  | none =>
    have free := cutLast_eq_none.mp cut
    cases cutSpace : cutLast '\x60' (space.toList ++ '.' :: name.toList) with
    | none => rfl
    | some parts =>
      -- the last backtick stands in the namespace, so that a dot follows it
      obtain ⟨before, digits⟩ := parts
      obtain ⟨same, freeDigits⟩ := cutLast_eq_some.mp cutSpace
      have dotted : '.' ∈ digits := by
        rcases List.append_eq_append_iff.mp same with ⟨more, -, tail⟩ | ⟨more, -, tail⟩
        · cases more with
          | nil => exact absurd (List.cons.inj tail).1 (by decide)
          | cons c more => exact absurd (by simp [(List.cons.inj tail).2]) free
        · cases more with
          | nil => exact absurd (List.cons.inj tail).1 (by decide)
          | cons c more => simp [(List.cons.inj tail).2]
      dsimp only
      split
      · rename_i arity read
        rcases count?_isDigit read '.' dotted with plus | digit
        · exact absurd plus (by decide)
        · exact absurd digit (by decide)
      · rfl

namespace TypeDefinition

/-- The names of the segments, the first with the namespace in front. -/
def spelledPath (d : TypeDefinition) : List String :=
  d.segments.modifyHead (qualified d.space)

theorem segments_ne_nil (d : TypeDefinition) : d.segments ≠ [] := by
  simp [segments]

theorem qualified_intercalate (space outer : String) (inner : List String) :
    qualified space ("+".intercalate (outer :: inner)) =
      "+".intercalate (qualified space outer :: inner) := by
  apply String.toList_inj.mp
  simp only [qualified, String.toList_append, String.toList_intercalate, List.map_cons]
  cases inner <;> simp [List.intercalate]

theorem fullName_eq (d : TypeDefinition) : d.fullName = "+".intercalate d.spelledPath := by
  rw [fullName, ← qualified, spelledPath]
  cases parts : d.segments with
  | nil => exact absurd parts d.segments_ne_nil
  | cons outer inner => exact qualified_intercalate d.space outer inner

end TypeDefinition

/-- The definition is made from a declaration. -/
def TypeDefinition.Declared (d : TypeDefinition) : Prop :=
  ∃ (declaration : TypeDeclaration) (token : Token), d = declaration.define token

namespace TypeDeclaration

/-- The parts between the plus signs name the segments, once the namespace is cut off the first. -/
theorem define_parts (declaration : TypeDeclaration) (token : Token) :
    ∃ outer inner name, declaration.fullName.toList.splitOn '+' = outer :: inner ∧
      (cutLast '.' outer).getD ([], outer) = ((declaration.define token).space.toList, name) ∧
      (declaration.define token).segments = String.ofList name :: inner.map String.ofList := by
  cases parts : declaration.fullName.toList.splitOn '+' with
  | nil => exact absurd parts (List.splitOn_ne_nil _ _)
  | cons outer inner =>
    refine ⟨outer, inner, ((cutLast '.' outer).getD ([], outer)).2, rfl, ?_, ?_⟩
    · simp [define, splitName, parts]
    · simp only [define, splitName, parts, TypeDefinition.segments]
      rw [List.getLastD_eq_getLast?, List.getLast?_eq_some_getLast (by simp), Option.getD_some,
        List.dropLast_concat_getLast, List.map_cons]

end TypeDeclaration

namespace TypeDefinition.Declared
variable {d : TypeDefinition}

/-- No name of the path holds the sign that joins them. -/
theorem plusless (declared : d.Declared) : ∀ name ∈ d.spelledPath, '+' ∉ name.toList := by
  obtain ⟨declaration, token, rfl⟩ := declared
  obtain ⟨outer, inner, own, parts, cut, segments⟩ := declaration.define_parts token
  have free : ∀ part ∈ outer :: inner, '+' ∉ part :=
    fun part member => not_mem_of_mem_splitOn (parts ▸ member)
  have whole : '+' ∉ (declaration.define token).space.toList ++ own := by
    have freeOuter := free outer (by simp)
    cases found : cutLast '.' outer with
    | none =>
      rw [found] at cut
      obtain ⟨space, rfl⟩ := Prod.mk.inj cut
      simpa [← space] using freeOuter
    | some split =>
      rw [found, Option.getD_some] at cut
      obtain ⟨rfl, -⟩ := cutLast_eq_some.mp (found.trans (congrArg some cut))
      simpa using freeOuter
  rw [List.mem_append, not_or] at whole
  rw [spelledPath, segments, List.modifyHead_cons]
  refine List.forall_mem_cons.mpr ⟨?_, ?_⟩
  · rw [qualified]
    split <;> simp [whole]
  · intro name member
    obtain ⟨part, listed, rfl⟩ := List.mem_map.mp member
    rw [String.toList_ofList]
    exact free part (by simp [listed])

/-- The parts of the full name between its plus signs are the path. -/
theorem splitOn_fullName (declared : d.Declared) :
    d.fullName.toList.splitOn '+' = d.spelledPath.map String.toList := by
  rw [d.fullName_eq]
  exact splitOn_joined (by simpa [spelledPath] using d.segments_ne_nil) declared.plusless

/-- There is a generic parameter for each of those that the names count. -/
theorem arity_le (declared : d.Declared) :
    (d.spelledPath.map fun name => (cutArity name).2).sum ≤ d.genericParams.length := by
  have arities : d.spelledPath.map (fun name => (cutArity name).2) =
      d.segments.map fun name => (cutArity name).2 := by
    rw [spelledPath]
    cases d.segments with
    | nil => rfl
    | cons outer inner =>
      rw [List.modifyHead_cons, List.map_cons, List.map_cons, cutArity_qualified]
  obtain ⟨declaration, token, rfl⟩ := declared
  rw [arities]
  simp only [segments, TypeDeclaration.define, List.length_append, List.length_map,
    List.length_range', List.sum_eq_foldr, List.foldr_map]
  omega

/-- The namespace ends at the last dot of the outermost name. -/
theorem dotless (declared : d.Declared) : ∀ name ∈ d.segments.head?, '.' ∉ name.toList := by
  obtain ⟨declaration, token, rfl⟩ := declared
  obtain ⟨outer, inner, own, -, cut, segments⟩ := declaration.define_parts token
  rw [segments]
  rintro _ ⟨⟩
  rw [String.toList_ofList]
  cases found : cutLast '.' outer with
  | none =>
    rw [found] at cut
    obtain rfl := (Prod.mk.inj cut).2
    exact cutLast_eq_none.mp found
  | some split =>
    rw [found, Option.getD_some] at cut
    exact (cutLast_eq_some.mp (found.trans (congrArg some cut))).2

/-- The full name tells the namespace and all names. -/
theorem parts_eq (declared : d.Declared) {space outer : String} {inner : List String}
    (named : d.fullName = qualified space ("+".intercalate (outer :: inner)))
    (dotless : '.' ∉ outer.toList)
    (plusless : ∀ name ∈ qualified space outer :: inner, '+' ∉ name.toList) :
    d.space = space ∧ d.segments = outer :: inner := by
  have parts : d.fullName.toList.splitOn '+' =
      (qualified space outer :: inner).map String.toList := by
    rw [named, qualified_intercalate]
    exact splitOn_joined (List.cons_ne_nil _ _) plusless
  rw [declared.splitOn_fullName] at parts
  have path := (List.map_inj_right fun _ _ => String.toList_inj.mp).mp parts
  have own := declared.dotless
  rw [spelledPath] at path
  cases segments : d.segments with
  | nil => exact absurd segments d.segments_ne_nil
  | cons outer' inner' =>
    rw [segments, List.modifyHead_cons] at path
    rw [segments] at own
    obtain ⟨head, rfl⟩ := List.cons.inj path
    obtain ⟨rfl, rfl⟩ := qualified_inj (own outer' rfl) dotless head
    exact ⟨rfl, rfl⟩

end TypeDefinition.Declared

/-- All modules are made from declarations. -/
inductive Snapshot.Built : Snapshot → Prop
  | empty : Built .empty
  | add {s : Snapshot} (built : Built s) (identity : Assembly.Identity)
    (declarations : List TypeDeclaration) : Built (s.add (.build identity declarations))

theorem Snapshot.Built.declared {s : Snapshot} (built : s.Built) :
    ∀ m ∈ s.modules, ∀ d ∈ m.types, d.Declared := by
  induction built with
  | empty => simp [Snapshot.empty]
  | add _ identity declarations ih =>
    intro m member d defined
    rcases List.mem_append.mp member with before | new
    · exact ih m before d defined
    · rw [List.mem_singleton.mp new] at defined
      obtain ⟨i, bound, rfl⟩ := List.mem_mapIdx.mp ((keepFirst_sublist _).subset defined)
      exact ⟨_, _, rfl⟩

end Metadata

end DebugExpr
