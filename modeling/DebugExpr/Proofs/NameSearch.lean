import DebugExpr.Proofs.SpelledTypes

/-! Where a written name leads. The names of a definition that is found are those under which it was
looked for, so that they can be written again; a definition that is alone under its full name is
found from everywhere. -/
namespace DebugExpr

namespace Source
open Text

/-- A dotted name that is displayed as it is read: no part is a reserved word behind an at sign, and
no dollar sign stands in front. -/
structure PlainPath (path : List (String × Nat)) : Prop where
  unreserved : ∀ part ∈ path, isReserved part.1 = false
  counted : ∀ part ∈ path, part.2 ≤ maxCount
  first : ∀ part ∈ path.head?, part.1.toList.head? ≠ some '$'

end Source

namespace Bound.Scope
open Metadata Source Text
variable {s : Scope} {t : ClosedType} {home : ModuleId} {d : TypeDefinition}

section Names
variable {path space nested : List (String × Nat)} {fullName : String}

/-- A name has only characters of names. -/
theorem not_mem_of_isName {cs : List Char} (isName : IsName cs) {c : Char}
    (apart : isNameStart c = false ∧ isNamePart c = false) : c ∉ cs := by
  obtain ⟨first, rest, rfl, start, parts⟩ := isName
  intro member
  rcases List.mem_cons.mp member with rfl | later
  · rw [start] at apart
    cases apart.1
  · rw [parts c later] at apart
    cases apart.2

theorem isName_of_all {cs : List Char} (start : cs.head?.any isNameStart = true)
    (parts : cs.tail.all isNamePart = true) : IsName cs := by
  cases cs with
  | nil => cases start
  | cons first rest => exact ⟨first, rest, rfl, start, List.all_eq_true.mp parts⟩

/-- The parts are names, with numbers of arguments that fit. -/
def Nameable (path : List (String × Nat)) : Prop :=
  ∀ part ∈ path, IsName part.1.toList ∧ part.2 ≤ maxCount

/-- The metadata name of a part. -/
def partName (part : String × Nat) : String :=
  QualifiedName.Segment.metadataName ⟨part.1, part.2⟩

theorem cutArity_partName {part : String × Nat} (isName : IsName part.1.toList)
    (small : part.2 ≤ maxCount) : cutArity (partName part) = part := by
  by_cases generic : part.2 = 0
  · have free := not_mem_of_isName isName (c := '\x60') (by decide)
    have plain : partName part = part.1 := if_pos generic
    have cut := cutLast_eq_none.mpr free
    rw [plain, cutArity, cut, ← generic]
  · exact QualifiedName.Segment.cutArity_metadataName (s := ⟨part.1, part.2⟩) small generic

theorem not_mem_partName {part : String × Nat} (isName : IsName part.1.toList) {c : Char}
    (apart : isNameStart c = false ∧ isNamePart c = false)
    (other : c.isDigit = false ∧ c ≠ '\x60') : c ∉ (partName part).toList := by
  have mark : c ∉ QualifiedName.arityMark part.2 := by
    unfold QualifiedName.arityMark
    split
    · exact List.not_mem_nil
    · simpa [other.2] using QualifiedName.not_mem_toDigits other.1
  rw [partName, QualifiedName.Segment.toList_metadataName, List.mem_append]
  exact not_or.mpr ⟨not_mem_of_isName isName apart, mark⟩

/-- The text of a namespace. -/
def spaceText (space : List (String × Nat)) : String :=
  ".".intercalate (space.map (·.1))

theorem spaceText_isEmpty (nameable : Nameable space) :
    (spaceText space).isEmpty = space.isEmpty := by
  cases space with
  | nil => rfl
  | cons first rest =>
    obtain ⟨⟨c, tail, split, -⟩, -⟩ := nameable first List.mem_cons_self
    have text : (spaceText (first :: rest)).toList ≠ [] := by
      rw [spaceText, String.toList_intercalate]
      cases rest <;> simp [split, List.intercalate]
    simpa using text

theorem dottedNames_spaceText (nameable : Nameable space) (someName : space ≠ []) :
    dottedNames (spaceText space) = space.map (·.1) := by
  have same : String.ofList ∘ String.toList = id := funext fun _ => String.ofList_toList
  have parts : (spaceText space).toList.splitOn '.' = (space.map (·.1)).map String.toList := by
    rw [spaceText, String.toList_intercalate]
    refine List.splitOn_intercalate _ ?_ (by simpa using someName)
    simp only [List.map_map, List.forall_mem_map]
    exact fun part member => not_mem_of_isName (nameable part member).1 (by decide)
  rw [dottedNames, parts, List.map_map, same, List.map_id]

theorem plus_not_mem_spaceText (nameable : Nameable space) : '+' ∉ (spaceText space).toList := by
  rw [spaceText, String.toList_intercalate, List.map_map]
  refine Parsing.intercalate_induction (P := ('+' ∉ ·)) List.not_mem_nil ?_ (by decide) ?_
  · intro first second free free'
    exact List.mem_append.not.mpr (not_or.mpr ⟨free, free'⟩)
  · rw [List.forall_mem_map]
    exact fun part member => not_mem_of_isName (nameable part member).1 (by decide)

/-- The names of a namespace are displayed without arguments. -/
theorem displayed_space (nameable : Nameable space) (plain : ∀ part ∈ space, part.2 = 0) :
    (if (spaceText space).isEmpty then [] else dottedNames (spaceText space)).map (·, 0) =
      space := by
  rw [spaceText_isEmpty nameable]
  cases space with
  | nil => rfl
  | cons first rest =>
    rw [List.isEmpty_cons, if_neg Bool.false_ne_true,
      dottedNames_spaceText nameable (List.cons_ne_nil _ _), List.map_map]
    refine (List.map_congr_left fun part member => ?_).trans (List.map_id _)
    exact Prod.ext rfl (plain part member).symm

/-- The names in front of a nested name are its namespace. -/
theorem metadataName_qualified (nameable : Nameable space) : metadataName space nested =
    qualified (spaceText space) ("+".intercalate (nested.map partName)) := by
  rw [qualified, spaceText_isEmpty nameable]
  rfl

theorem locateType?_eq_some (found : s.locateType? fullName = some (home, d)) :
    ∃ m ∈ s.snapshot.modules, m.id = home ∧ m.typeNamed? fullName = some d := by
  obtain ⟨m, member, inModule⟩ := List.exists_of_findSome?_eq_some found
  obtain ⟨_, named, same⟩ := Option.map_eq_some_iff.mp inModule
  cases same
  refine ⟨m, ?_, rfl, named⟩
  simp only [List.mem_append, Option.mem_toList] at member
  rcases member with (own | core) | loaded
  · exact Snapshot.get?_mem own
  · exact List.mem_of_find?_eq_some core
  · exact loaded

theorem findNamed?_eq_some (found : s.findNamed? path = some (fullName, home, d)) :
    ∃ space outer inner, path = space ++ outer :: inner ∧ (∀ part ∈ space, part.2 = 0) ∧
      fullName = metadataName space (outer :: inner) ∧
      s.locateType? fullName = some (home, d) := by
  obtain ⟨split, inside, found⟩ := List.exists_of_findSome?_eq_some found
  rw [List.mem_reverse, List.mem_range] at inside
  dsimp only at found
  split at found
  · cases found
  · rename_i plain
    obtain ⟨_, located, same⟩ := Option.map_eq_some_iff.mp found
    cases same
    obtain ⟨outer, inner, nested⟩ := List.exists_cons_of_ne_nil
      (l := path.drop split) (by simpa using inside)
    refine ⟨path.take split, outer, inner, ?_, by simpa using plain, by rw [nested], located⟩
    rw [← nested, List.take_append_drop]

/-- A definition whose full name is made of a path is displayed by the names of the path. -/
theorem displayedPath_of_fullName (declared : d.Declared) {outer : String × Nat}
    {inner : List (String × Nat)} (nameable : Nameable (space ++ outer :: inner))
    (plain : ∀ part ∈ space, part.2 = 0) (same : d.fullName = metadataName space (outer :: inner)) :
    d.space = spaceText space ∧ d.segments = (outer :: inner).map partName ∧
      d.displayedPath = space ++ outer :: inner := by
  obtain ⟨nameableSpace, nameableNested⟩ := List.forall_mem_append.mp nameable
  rw [metadataName_qualified nameableSpace, List.map_cons] at same
  have plusless : ∀ name ∈ qualified (spaceText space) (partName outer) :: inner.map partName,
      '+' ∉ name.toList := by
    have free : ∀ part ∈ outer :: inner, '+' ∉ (partName part).toList := fun part member =>
      not_mem_partName (nameableNested part member).1 (by decide) (by decide)
    rw [List.forall_mem_cons] at free
    refine List.forall_mem_cons.mpr ⟨?_, List.forall_mem_map.mpr free.2⟩
    have freeSpace := plus_not_mem_spaceText nameableSpace
    rw [qualified]
    split <;> simp [freeSpace, free.1]
  obtain ⟨inSpace, segments⟩ := declared.parts_eq same
    (not_mem_partName (nameableNested outer List.mem_cons_self).1 (by decide) (by decide)) plusless
  have cut : ((outer :: inner).map partName).map cutArity = outer :: inner := by
    rw [List.map_map]
    refine (List.map_congr_left fun part member => ?_).trans (List.map_id _)
    exact cutArity_partName (nameableNested part member).1 (nameableNested part member).2
  refine ⟨inSpace, segments, ?_⟩
  rw [TypeDefinition.displayedPath, inSpace, segments, displayed_space nameableSpace plain,
    ← List.map_cons, cut]

theorem typeNamed?_eq_some {m : Module} (named : m.typeNamed? fullName = some d) :
    d ∈ m.types ∧ d.fullName = fullName :=
  ⟨List.mem_of_find?_eq_some named, by simpa using List.find?_some named⟩

/-- A definition that is found under written names is displayed by the same names. -/
theorem displayedPath_eq (built : s.snapshot.Built) (nameable : Nameable path)
    (found : s.findNamed? path = some (fullName, home, d)) : d.displayedPath = path := by
  obtain ⟨space, outer, inner, rfl, plain, rfl, located⟩ := findNamed?_eq_some found
  obtain ⟨m, loaded, -, named⟩ := locateType?_eq_some located
  obtain ⟨member, same⟩ := typeNamed?_eq_some named
  exact (displayedPath_of_fullName (built.declared m loaded d member) nameable plain same).2.2

/-- A definition that is alone under its name is found from everywhere. -/
theorem locateType?_of_once {m : Module} (loaded : m ∈ s.snapshot.modules)
    (named : m.typeNamed? fullName = some d)
    (once : ∀ m ∈ s.snapshot.modules, ∀ m' ∈ s.snapshot.modules,
      (m.typeNamed? fullName).isSome = true → (m'.typeNamed? fullName).isSome = true →
      m.id = m'.id) : s.locateType? fullName = some (m.id, d) := by
  cases found : s.locateType? fullName with
  | none =>
    have nowhere := List.findSome?_eq_none_iff.mp found m (by simp [loaded])
    rw [Snapshot.typeIn?, named] at nowhere
    cases nowhere
  | some place =>
    obtain ⟨home, d'⟩ := place
    obtain ⟨m', loaded', rfl, named'⟩ := locateType?_eq_some found
    have ids := once m loaded m' loaded' (by simp [named]) (by simp [named'])
    obtain rfl : m = m' := Option.some.inj <|
      (Snapshot.get?_id loaded).symm.trans (ids ▸ Snapshot.get?_id loaded')
    rw [named] at named'
    rw [Option.some.inj named']

end Names

section Core
variable {core : Module} {args : List ClosedType} {fullName : String}

theorem coreType_eq_ok : s.snapshot.coreType fullName args = .ok t ↔
    ∃ core d, s.snapshot.coreLibrary? = some core ∧ core.typeNamed? fullName = some d ∧
      d.genericParams.length = args.length ∧ t = .named core.id d args := by
  rw [Snapshot.coreType]
  cases s.snapshot.coreLibrary? with
  | none => simp
  | some core =>
    cases named : core.typeNamed? fullName with
    | none => simp [named]
    | some d =>
      by_cases count : d.genericParams.length = args.length <;> simp [named, count, @eq_comm _ t]

/-- The name of a built-in type in its namespace. -/
def simpleName (p : Primitive) : String :=
  String.ofList (p.fullName.toList.drop "System.".length)

/-- The path of a type of the core library. -/
def corePath (name : String) (count : Nat) : List (String × Nat) :=
  [("System", 0), (name, count)]

theorem corePath_plain {name : String} {count : Nat} (isName : IsName name.toList)
    (free : isReserved name = false) (small : count ≤ maxCount) :
    Nameable (corePath name count) ∧ PlainPath (corePath name count) := by
  have system : IsName "System".toList := isName_of_all (by decide) (by decide)
  refine ⟨?_, ?_, ?_, ?_⟩
  · exact List.forall_mem_cons.mpr ⟨⟨system, Nat.zero_le _⟩,
      List.forall_mem_singleton.mpr ⟨isName, small⟩⟩
  · have freeSystem : isReserved "System" = false := by decide
    simp [corePath, freeSystem, free]
  · simp [corePath, small]
  · rintro _ ⟨⟩
    decide

theorem simpleName_plain (p : Primitive) : IsName (simpleName p).toList ∧
    isReserved (simpleName p) = false ∧
    p.fullName = metadataName [("System", 0)] [(simpleName p, 0)] := by
  cases p <;> exact ⟨isName_of_all (by decide) (by decide), by decide, by decide⟩

theorem nullable_plain : IsName "Nullable".toList ∧ isReserved "Nullable" = false ∧
    nullableName = metadataName [("System", 0)] [("Nullable", 1)] :=
  ⟨isName_of_all (by decide) (by decide), by decide, by decide⟩

theorem fullName_injective : Function.Injective Primitive.fullName := by
  have found (p : Primitive) : Primitive.ofFullName? p.fullName = some p := by
    cases p <;> decide
  intro p q same
  exact Option.some.inj ((found p).symm.trans (same ▸ found q))

theorem fullName_ne_nullable (p : Primitive) : p.fullName ≠ nullableName := by
  cases p <;> decide

/-- What is displayed of a definition with the full name of a type of the core library. -/
theorem displayedPath_core (declared : d.Declared) {name : String} {count : Nat}
    (nameable : Nameable (corePath name count))
    (same : d.fullName = metadataName [("System", 0)] [(name, count)]) :
    d.displayedPath = corePath name count := by
  have plain : ∀ part ∈ [("System", 0)], part.2 = 0 := by simp
  exact (displayedPath_of_fullName declared nameable plain same).2.2

/-- A type of the core library is found by its path, if there is no other of its name. -/
theorem findNamed?_core {name : String} {count : Nat} (found : s.snapshot.coreLibrary? = some core)
    (named : core.typeNamed? (metadataName [("System", 0)] [(name, count)]) = some d)
    (once : ∀ m ∈ s.snapshot.modules, ∀ m' ∈ s.snapshot.modules,
      (m.typeNamed? d.fullName).isSome = true → (m'.typeNamed? d.fullName).isSome = true →
      m.id = m'.id) : s.findNamed? (corePath name count) =
        some (metadataName [("System", 0)] [(name, count)], core.id, d) := by
  rw [(typeNamed?_eq_some named).2] at once
  have located := locateType?_of_once (List.mem_of_find?_eq_some found) named once
  rw [findNamed?, List.findSome?_eq_some_iff]
  refine ⟨[], 1, [0], rfl, ?_, nofun⟩
  simp [corePath, located]

end Core

end Bound.Scope

end DebugExpr
