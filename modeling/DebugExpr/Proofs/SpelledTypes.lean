import DebugExpr.Bound.Scope
import DebugExpr.Proofs.DisplayScanning
import DebugExpr.Proofs.ResolvedNames

/-! Displays of resolved types, read as types again. A display spells each definition by its names,
and these are looked for as they were the first time, so that the same definitions are found. Only
the brackets of arrays of arrays do not come back: a display writes the outermost rank first, and a
reader takes the first rank as the innermost. -/
namespace DebugExpr

namespace Metadata
open Text Source

/-- Gives arguments to names, to each as many as it takes. -/
def regroup {α : Type} : List (String × Nat) → List α → List (String × List α)
  | [], _ => []
  | (name, count) :: rest, args => (name, args.take count) :: regroup rest (args.drop count)

/-- The parts of a dotted name. -/
def dottedNames (text : String) : List String :=
  (text.toList.splitOn '.').map String.ofList

namespace TypeDefinition

/-- The dotted names that are displayed, each with the number of arguments that it takes. -/
def displayedPath (d : TypeDefinition) : List (String × Nat) :=
  (if d.space.isEmpty then [] else dottedNames d.space).map (·, 0) ++ d.segments.map cutArity

/-- The definition with written arguments, as it is displayed. -/
def spelling (d : TypeDefinition) (args : List TypeExpr) : TypeExpr :=
  match d.primitive with
  | some p =>
    if p.keyword?.isSome then .keyword p
    else .named false ((dottedNames p.fullName).map (·, []))
  | none =>
    match d.isNullable, args with
    | true, [arg] => .nullable arg
    | _, _ => .named false (regroup d.displayedPath args)

section
variable {d : TypeDefinition} {args : List TypeExpr}

theorem spelling_builtIn {p : Primitive} (marked : d.primitive = some p) : d.spelling args =
    if p.keyword?.isSome then .keyword p
    else .named false ((dottedNames p.fullName).map (·, [])) := by
  simp [spelling, marked]

theorem spelling_optional {arg : TypeExpr} (unmarked : d.primitive = none)
    (nullable : d.isNullable = true) : d.spelling [arg] = .nullable arg := by
  simp [spelling, unmarked, nullable]

theorem spelling_plain (unmarked : d.primitive = none) (required : d.isNullable = false) :
    d.spelling args = .named false (regroup d.displayedPath args) := by
  simp [spelling, unmarked, required]

end

end TypeDefinition

namespace ClosedType

mutual

/-- The written type that has the same display, inside arrays of the given ranks, the outermost
first. -/
def spellingUnder : List Nat → ClosedType → TypeExpr
  | ranks, .named _ d args => ranks.foldl .array (d.spelling (spellingAll args))
  | ranks, .array element rank => spellingUnder (ranks ++ [rank]) element

def spellingAll : List ClosedType → List TypeExpr
  | [] => []
  | t :: rest => spellingUnder [] t :: spellingAll rest

end

mutual

/-- The type with the ranks of its arrays turned around, inside arrays of the given ranks. -/
def turnedUnder : List Nat → ClosedType → ClosedType
  | ranks, .named home d args => ranks.foldl .array (.named home d (turnedAll args))
  | ranks, .array element rank => turnedUnder (ranks ++ [rank]) element

def turnedAll : List ClosedType → List ClosedType
  | [] => []
  | t :: rest => turnedUnder [] t :: turnedAll rest

end

/-- The type in which the ranks of arrays of arrays stand the other way round, on all levels. -/
def turned (t : ClosedType) : ClosedType :=
  t.turnedUnder []

/-- The written type that has the same display. -/
def spelling (t : ClosedType) : TypeExpr :=
  t.spellingUnder []

end ClosedType

section Displays

theorem display_foldl_array (base : TypeExpr) (ranks : List Nat) :
    (ranks.foldl .array base).display = base.display ++ String.join (ranks.map rankBrackets) := by
  induction ranks generalizing base with
  | nil => simp
  | cons rank ranks ih =>
    rw [List.foldl_cons, ih, TypeExpr.display]
    simp [String.append_assoc]

theorem regroup_append_plain {α : Type} (names : List String) (counts : List (String × Nat))
    (args : List α) : regroup (names.map (·, 0) ++ counts) args =
      names.map (·, []) ++ regroup counts args := by
  induction names with
  | nil => rfl
  | cons name names ih => simp [regroup, ih]

theorem displaySegments_regroup (segments : List String) (args : List TypeExpr) :
    (regroup (segments.map cutArity) args).map TypeExpr.displaySegment =
      ClosedType.displaySegments segments (args.map TypeExpr.display) := by
  induction segments generalizing args with
  | nil => rfl
  | cons segment rest ih =>
    cases cut : cutArity segment
    simp only [List.map_cons, regroup, ClosedType.displaySegments, cut, ih, List.map_drop,
      ← List.map_take, List.isEmpty_map, TypeExpr.displaySegment]
    split <;> simp [String.append_assoc]

theorem intercalate_dottedNames (text : String) : ".".intercalate (dottedNames text) = text := by
  have same : String.toList ∘ String.ofList = id := funext fun _ => String.toList_ofList
  apply String.toList_inj.mp
  rw [String.toList_intercalate, dottedNames, List.map_map, same, List.map_id]
  exact List.intercalate_splitOn '.'

theorem dottedNames_ne_nil (text : String) : dottedNames text ≠ [] := by
  simp [dottedNames, List.splitOn_ne_nil]

theorem displaySegment_plain (names : List String) :
    (names.map (·, ([] : List TypeExpr))).map TypeExpr.displaySegment = names := by
  have same : TypeExpr.displaySegment ∘ (·, ([] : List TypeExpr)) = id :=
    funext fun name => by simp [TypeExpr.displaySegment]
  rw [List.map_map, same, List.map_id]

theorem intercalate_append {sep : String} {front back : List String} (someFront : front ≠ [])
    (someBack : back ≠ []) :
    sep.intercalate (front ++ back) = sep.intercalate front ++ sep ++ sep.intercalate back := by
  obtain ⟨first, more, rfl⟩ := List.exists_cons_of_ne_nil someBack
  apply String.toList_inj.mp
  simp only [String.toList_append, String.toList_intercalate, List.map_append, List.map_cons]
  induction front with
  | nil => exact absurd rfl someFront
  | cons name front ih =>
    cases front with
    | nil => simp [List.intercalate]
    | cons second front =>
      have inner := ih (List.cons_ne_nil _ _)
      simp only [List.map_cons, List.cons_append] at inner ⊢
      rw [List.intercalate_cons_cons, inner, List.intercalate_cons_cons]
      simp [List.append_assoc]

theorem display_path (d : TypeDefinition) (args : List TypeExpr) :
    (TypeExpr.named false (regroup d.displayedPath args)).display =
      qualified d.space (".".intercalate (ClosedType.displaySegments d.segments
        (args.map TypeExpr.display))) := by
  have shown := displaySegments_regroup d.segments args
  have someName : ClosedType.displaySegments d.segments (args.map TypeExpr.display) ≠ [] := by
    rw [← shown]
    cases segments : d.segments with
    | nil => exact absurd segments d.segments_ne_nil
    | cons => simp [regroup]
  rw [TypeExpr.display, TypeExpr.displaySegments_eq, TypeDefinition.displayedPath,
    regroup_append_plain, List.map_append, displaySegment_plain, shown, qualified,
    if_neg Bool.false_ne_true, String.empty_append]
  by_cases empty : d.space.isEmpty = true
  · rw [if_pos empty, if_pos empty, List.nil_append, String.empty_append]
  · rw [if_neg empty, if_neg empty, intercalate_append (dottedNames_ne_nil _) someName,
      intercalate_dottedNames]

/-- The written type has the display of the definition. -/
theorem display_spelling (d : TypeDefinition) (args : List TypeExpr) :
    (d.spelling args).display = ClosedType.displayNamed d (args.map TypeExpr.display) := by
  unfold TypeDefinition.spelling ClosedType.displayNamed
  cases d.primitive with
  | some p =>
    cases word : p.keyword? with
    | some keyword => simp [word, TypeExpr.display]
    | none =>
      simp only [word, Option.isSome_none, Bool.false_eq_true, if_false, TypeExpr.display,
        TypeExpr.displaySegments_eq, displaySegment_plain, intercalate_dottedNames,
        String.empty_append, Primitive.display, Option.getD_none]
  | none =>
    have plain := display_path d args
    cases d.isNullable with
    | false => exact plain
    | true =>
      cases args with
      | nil => exact plain
      | cons arg more =>
        cases more with
        | nil => rfl
        | cons second more => exact plain

mutual

theorem display_spellingUnder : (t : ClosedType) → (ranks : List Nat) →
    (t.spellingUnder ranks).display = t.displayArray (String.join (ranks.map rankBrackets))
  | .named home d args, ranks => by
    rw [ClosedType.spellingUnder, display_foldl_array, display_spelling, display_spellingAll,
      ClosedType.displayArray]
  | .array element rank, ranks => by
    rw [ClosedType.spellingUnder, display_spellingUnder element, ClosedType.displayArray]
    simp

theorem display_spellingAll : (ts : List ClosedType) →
    (ClosedType.spellingAll ts).map TypeExpr.display = ClosedType.displayAll ts
  | [] => rfl
  | t :: rest => by
    rw [ClosedType.spellingAll, List.map_cons, display_spellingUnder t, display_spellingAll rest,
      ClosedType.displayAll]
    cases t <;> simp [ClosedType.displayArray, ClosedType.display]

end

/-- The written type has the display of the type. -/
theorem ClosedType.display_spelling (t : ClosedType) : t.spelling.display = t.display := by
  rw [ClosedType.spelling, display_spellingUnder]
  cases t <;> simp [ClosedType.displayArray, ClosedType.display]

end Displays

end Metadata

end DebugExpr
