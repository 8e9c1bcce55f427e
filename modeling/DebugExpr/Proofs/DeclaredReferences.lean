import DebugExpr.Proofs.ResolvedNames
import DebugExpr.Proofs.SignatureNames
import Mathlib.Data.List.Find

/-! References by the names that types are declared with. A name is cut twice, into namespace and
nested names for the definition, and into nested names and arities for the reference, and put
together again on both sides. The two sides meet if the name is written as metadata writes it: an
arity is a positive number without zeros in front, and a dot at the start is not the only one of its
part. -/
namespace DebugExpr

namespace Metadata
open Text

/-- The parts of a metadata name that plus signs join, outermost first. -/
def nestedNames (fullName : String) : List String :=
  (fullName.toList.splitOn '+').map String.ofList

theorem nestedNames_ne_nil (fullName : String) : nestedNames fullName ≠ [] := by
  simp [nestedNames]

theorem intercalate_nestedNames (fullName : String) :
    "+".intercalate (nestedNames fullName) = fullName := by
  apply String.toList_inj.mp
  have chars : (nestedNames fullName).map String.toList = fullName.toList.splitOn '+' := by
    simp [nestedNames, Function.comp_def]
  rw [String.toList_intercalate, chars]
  exact List.intercalate_splitOn '+'

theorem plusless_nestedNames {fullName part : String} (among : part ∈ nestedNames fullName) :
    '+' ∉ part.toList := by
  obtain ⟨chars, member, rfl⟩ := List.mem_map.mp among
  rw [String.toList_ofList]
  exact not_mem_of_mem_splitOn member

/-- The part has its first character for its only dot. -/
def DotLeads (part : String) : Prop :=
  ∃ own, part.toList = '.' :: own ∧ '.' ∉ own

/-- A part without the dot at its start, if that is the only one. -/
def withoutDot (part : String) : String :=
  match part.toList with
  | '.' :: own => if '.' ∈ own then part else String.ofList own
  | _ => part

/-- The full name by which a definition is found that is declared with a name. -/
def keptName (fullName : String) : String :=
  "+".intercalate ((nestedNames fullName).modifyHead withoutDot)

/-- What stands behind the last backtick is no count, or the digits of a positive one. -/
def ArityWritten (part : String) : Prop :=
  ∀ name digits count, part.toList = name ++ '\x60' :: digits → '\x60' ∉ digits →
    count? digits = some count → count ≠ 0 ∧ digits = Nat.toDigits 10 count

theorem withoutDot_eq {part : String} (inside : ¬ DotLeads part) : withoutDot part = part := by
  unfold withoutDot
  split
  · rename_i own text
    exact if_pos (by_contra fun only => inside ⟨own, text, only⟩)
  · rfl

theorem DotLeads.dotless_withoutDot {part : String} (leads : DotLeads part) :
    '.' ∉ (withoutDot part).toList := by
  obtain ⟨own, text, only⟩ := leads
  simp [withoutDot, text, only]

theorem plusless_withoutDot {part : String} (plusless : '+' ∉ part.toList) :
    '+' ∉ (withoutDot part).toList := by
  unfold withoutDot
  split
  · rename_i own text
    split
    · exact plusless
    · rw [String.toList_ofList]
      exact fun inside => plusless (text ▸ List.mem_cons_of_mem '.' inside)
  · exact plusless

/-- An empty namespace is cut off together with the dot. -/
theorem qualified_cut {outer own : List Char} {space : String}
    (cut : (cutLast '.' outer).getD ([], outer) = (space.toList, own)) :
    qualified space (String.ofList own) = withoutDot (String.ofList outer) := by
  cases found : cutLast '.' outer with
  | none =>
    obtain ⟨empty, rfl⟩ := Prod.mk.inj ((congrArg (·.getD ([], outer)) found).symm.trans cut)
    obtain rfl : space = "" := String.toList_inj.mp empty.symm
    have dotless := cutLast_eq_none.mp found
    have inside : ¬ DotLeads (String.ofList outer) := by
      rintro ⟨rest, text, -⟩
      rw [String.toList_ofList] at text
      exact dotless (text ▸ List.mem_cons_self)
    rw [withoutDot_eq inside]
    rfl
  | some parts =>
    obtain rfl : parts = (space.toList, own) := (congrArg (·.getD ([], outer)) found).symm.trans cut
    obtain ⟨rfl, dotless⟩ := cutLast_eq_some.mp found
    by_cases empty : space = ""
    · subst empty
      simp [qualified, withoutDot, dotless]
    · have inside : ¬ DotLeads (String.ofList (space.toList ++ '.' :: own)) := by
        rintro ⟨rest, text, only⟩
        rw [String.toList_ofList] at text
        cases front : space.toList with
        | nil => exact empty (String.toList_eq_nil_iff.mp front)
        | cons c more =>
          rw [front] at text
          obtain ⟨-, rfl⟩ := List.cons.inj text
          exact only (by simp)
      rw [withoutDot_eq inside]
      apply String.toList_inj.mp
      simp [qualified, empty]

theorem TypeDeclaration.spelledPath_define (declaration : TypeDeclaration) (token : Token) :
    (declaration.define token).spelledPath =
      (nestedNames declaration.fullName).modifyHead withoutDot := by
  obtain ⟨outer, inner, own, parts, cut, segments⟩ := declaration.define_parts token
  rw [TypeDefinition.spelledPath, segments, nestedNames, parts, List.modifyHead_cons,
    List.map_cons, List.modifyHead_cons, qualified_cut cut]

theorem TypeDeclaration.fullName_define (declaration : TypeDeclaration) (token : Token) :
    (declaration.define token).fullName = keptName declaration.fullName := by
  rw [TypeDefinition.fullName_eq, spelledPath_define, keptName]

/-! ### Modules as they are built -/

theorem find?_keepFirst (ds : List TypeDefinition) (fullName : String) :
    (keepFirst ds).find? (·.fullName == fullName) = ds.find? (·.fullName == fullName) := by
  induction ds with
  | nil => rfl
  | cons d rest ih =>
    rw [keepFirst, List.find?_cons, List.find?_cons]
    cases named : d.fullName == fullName with
    | true => rfl
    | false =>
      -- what has the name of `d` is dropped, and does not have the name that is looked for
      rw [List.find?_filter, ← ih]
      refine List.find?_congr fun other _ => ?_
      rw [beq_eq_false_iff_ne] at named
      rw [Bool.eq_iff_iff, decide_eq_true_iff, bne_iff_ne, beq_iff_eq]
      exact ⟨And.right, fun same => ⟨fun equal => named (equal.symm.trans same), same⟩⟩

/-- The first declaration that is kept under a name is not behind any other one. -/
theorem exists_first_kept {declarations : List TypeDeclaration} {i : Nat} {fullName : String}
    {earlier : TypeDeclaration} (before : earlier ∈ declarations.take i)
    (named : keptName earlier.fullName = fullName) :
    ∃ j < i, ∃ first, declarations[j]? = some first ∧ keptName first.fullName = fullName ∧
      ∀ e ∈ declarations.take j, keptName e.fullName ≠ fullName := by
  have answers : (declarations.take i).find? (keptName ·.fullName == fullName) ≠ none := fun none =>
    absurd (beq_iff_eq.mpr named) (List.find?_eq_none.mp none earlier before)
  obtain ⟨first, found⟩ := Option.ne_none_iff_exists'.mp answers
  obtain ⟨named, j, inside, rfl, others⟩ := List.find?_eq_some_iff_getElem.mp found
  obtain ⟨before, inside⟩ := lt_min_iff.mp (List.length_take ▸ inside)
  refine ⟨j, before, declarations[j], List.getElem?_eq_getElem inside, by simpa using named, ?_⟩
  intro e member
  obtain ⟨k, bound, rfl⟩ := List.mem_take_iff_getElem.mp member
  simpa using others k (by omega)

/-- A name finds the first declaration that is kept under it. -/
theorem Module.typeNamed?_build {identity : Assembly.Identity}
    {declarations : List TypeDeclaration} {fullName : String} {d : TypeDefinition} :
    (Module.build identity declarations).typeNamed? fullName = some d ↔
      ∃ i declaration, declarations[i]? = some declaration ∧
        keptName declaration.fullName = fullName ∧
        (∀ earlier ∈ declarations.take i, keptName earlier.fullName ≠ fullName) ∧
        d = declaration.define (.typeDefinition (i + 1).toUInt32) := by
  rw [Module.typeNamed?, Module.build, Module.ofDefinitions, find?_keepFirst,
    List.find?_eq_some_iff_getElem]
  simp only [List.getElem_mapIdx, List.length_mapIdx, TypeDeclaration.fullName_define, beq_iff_eq,
    Bool.not_eq_true', beq_eq_false_iff_ne]
  constructor
  · rintro ⟨named, i, inside, rfl, first⟩
    refine ⟨i, declarations[i], List.getElem?_eq_getElem inside, ?_, ?_, rfl⟩
    · rwa [TypeDeclaration.fullName_define] at named
    · intro earlier member
      obtain ⟨j, bound, rfl⟩ := List.mem_take_iff_getElem.mp member
      exact first j (by omega)
  · rintro ⟨i, declaration, listed, named, first, rfl⟩
    obtain ⟨inside, rfl⟩ := List.getElem?_eq_some_iff.mp listed
    refine ⟨by rw [TypeDeclaration.fullName_define, named], i, inside, rfl, fun j before => ?_⟩
    exact first _ (List.mem_take_iff_getElem.mpr ⟨j, by omega, rfl⟩)

end Metadata

namespace QualifiedName
open Metadata Text

/-- A part as a reference spells it. -/
def rewritten (part : String) : String :=
  (Segment.ofMetadataName part).metadataName

theorem fullName_ofFullName (fullName : String) :
    (ofFullName fullName).fullName = "+".intercalate ((nestedNames fullName).map rewritten) := by
  simp [QualifiedName.fullName, ofFullName, nestedNames, rewritten, Function.comp_def]

/-- The arity is cut off a part and written anew, if it has one. -/
theorem rewritten_cases (part : String) :
    (∃ name digits count, part.toList = name ++ '\x60' :: digits ∧ '\x60' ∉ digits ∧
        count? digits = some count ∧ rewritten part = Segment.metadataName ⟨.ofList name, count⟩) ∨
      rewritten part = part ∧ ArityWritten part := by
  cases cut : cutLast '\x60' part.toList with
  | none =>
    have free := cutLast_eq_none.mp cut
    refine .inr ⟨?_, fun name digits count text => absurd (by simp [text]) free⟩
    simp [rewritten, Segment.ofMetadataName, cutArity, cut, Segment.metadataName]
  | some parts =>
    obtain ⟨name, digits⟩ := parts
    obtain ⟨text, free⟩ := cutLast_eq_some.mp cut
    cases counted : count? digits with
    | none =>
      refine .inr ⟨?_, fun name' digits' count text' free' read => ?_⟩
      · simp [rewritten, Segment.ofMetadataName, cutArity, cut, counted, Segment.metadataName]
      · have same := cut.symm.trans (cutLast_eq_some.mpr ⟨text', free'⟩)
        simp_all
    | some count =>
      refine .inl ⟨name, digits, count, text, free, counted, ?_⟩
      simp [rewritten, Segment.ofMetadataName, cutArity, cut, counted]

theorem rewritten_eq_self {part : String} : rewritten part = part ↔ ArityWritten part := by
  rcases rewritten_cases part with ⟨name, digits, count, text, free, counted, spelled⟩ | unchanged
  · have spelled := congrArg String.toList spelled
    rw [Segment.toList_metadataName, String.toList_ofList] at spelled
    constructor
    · intro same name' digits' count' text' free' counted'
      have parts := (cutLast_eq_some.mpr ⟨text, free⟩).symm.trans
        (cutLast_eq_some.mpr ⟨text', free'⟩)
      obtain ⟨rfl, rfl⟩ := Prod.mk.inj (Option.some.inj parts)
      obtain rfl : count = count' := Option.some.inj (counted.symm.trans counted')
      rw [same, text, List.append_cancel_left_eq, arityMark] at spelled
      split at spelled
      · cases spelled
      · exact ⟨‹_›, (List.cons.inj spelled).2⟩
    · intro written
      obtain ⟨positive, rfl⟩ := written name digits count text free counted
      apply String.toList_inj.mp
      rw [spelled, text, arityMark, if_neg positive]
  · exact ⟨fun _ => unchanged.2, fun _ => unchanged.1⟩

theorem plusless_rewritten {part : String} (plusless : '+' ∉ part.toList) :
    '+' ∉ (rewritten part).toList := by
  rcases rewritten_cases part with ⟨name, digits, count, text, -, -, spelled⟩ | ⟨unchanged, -⟩
  · rw [spelled, Segment.plus_metadataName, String.toList_ofList]
    exact fun member => plusless (by simp [text, member])
  · rwa [unchanged]

/-- A reference keeps the dot at its start. -/
theorem dot_mem_rewritten {part : String} (leads : DotLeads part) :
    '.' ∈ (rewritten part).toList := by
  obtain ⟨own, starts, -⟩ := leads
  rcases rewritten_cases part with ⟨name, digits, count, text, -, -, spelled⟩ | ⟨unchanged, -⟩
  · rw [spelled, Segment.toList_metadataName, String.toList_ofList]
    cases name with
    | nil => exact absurd (List.cons.inj (starts.symm.trans text)).1 (by decide)
    | cons c name =>
      obtain ⟨rfl, -⟩ := List.cons.inj (starts.symm.trans text)
      simp
  · simp [unchanged, starts]

theorem rewritten_eq_withoutDot {part : String} :
    rewritten part = withoutDot part ↔ ¬ DotLeads part ∧ ArityWritten part := by
  constructor
  · intro same
    have inside : ¬ DotLeads part := fun leads =>
      leads.dotless_withoutDot (same ▸ dot_mem_rewritten leads)
    rw [withoutDot_eq inside] at same
    exact ⟨inside, rewritten_eq_self.mp same⟩
  · rintro ⟨inside, written⟩
    rw [withoutDot_eq inside, rewritten_eq_self.mpr written]

theorem map_rewritten_eq_self {parts : List String} :
    parts.map rewritten = parts ↔ ∀ part ∈ parts, ArityWritten part := by
  have pointwise : parts.map rewritten = parts.map id ↔ ∀ part ∈ parts, rewritten part = part :=
    List.map_inj_left
  rw [List.map_id] at pointwise
  simp only [pointwise, rewritten_eq_self]

/-- A full name as metadata writes it. -/
structure NameWritten (fullName : String) : Prop where
  space : ∀ outer ∈ (nestedNames fullName).head?, ¬ DotLeads outer
  arities : ∀ part ∈ nestedNames fullName, ArityWritten part

/-- A name as metadata writes it is kept as it is. -/
theorem NameWritten.keptName_eq {fullName : String} (written : NameWritten fullName) :
    keptName fullName = fullName := by
  have outermost := written.space
  have whole := intercalate_nestedNames fullName
  rw [keptName]
  cases parts : nestedNames fullName with
  | nil => exact absurd parts (nestedNames_ne_nil fullName)
  | cons outer inner =>
    rw [parts] at whole outermost
    rw [List.modifyHead_cons, withoutDot_eq (outermost outer rfl), whole]

/-- The definition and the reference have the same name if it is written as metadata writes it. -/
theorem fullName_ofFullName_eq_keptName {fullName : String} :
    (ofFullName fullName).fullName = keptName fullName ↔ NameWritten fullName := by
  rw [fullName_ofFullName, keptName]
  have plusless : ∀ part ∈ nestedNames fullName, '+' ∉ part.toList :=
    fun _ => plusless_nestedNames
  cases parts : nestedNames fullName with
  | nil => exact absurd parts (nestedNames_ne_nil fullName)
  | cons outer inner =>
    rw [parts] at plusless
    have spelled : ∀ part ∈ (outer :: inner).map rewritten, '+' ∉ part.toList := by
      intro _ member
      obtain ⟨part, among, rfl⟩ := List.mem_map.mp member
      exact plusless_rewritten (plusless part among)
    obtain ⟨outermost, plusless⟩ := List.forall_mem_cons.mp plusless
    have kept : ∀ part ∈ withoutDot outer :: inner, '+' ∉ part.toList :=
      List.forall_mem_cons.mpr ⟨plusless_withoutDot outermost, plusless⟩
    rw [List.modifyHead_cons, joined_inj (by simp) (by simp) spelled kept, List.map_cons,
      List.cons.injEq, rewritten_eq_withoutDot, map_rewritten_eq_self]
    constructor
    · rintro ⟨⟨inside, first⟩, later⟩
      refine ⟨by simpa [parts] using inside, ?_⟩
      rw [parts]
      exact List.forall_mem_cons.mpr ⟨first, later⟩
    · rintro ⟨space, arities⟩
      rw [parts] at space arities
      obtain ⟨first, later⟩ := List.forall_mem_cons.mp arities
      exact ⟨⟨space outer rfl, first⟩, later⟩

namespace Resolver
variable {r : Resolver} {id : ModuleId} {m : Module}

theorem locate_inModule {t : QualifiedName} {home : ModuleId} {d : TypeDefinition}
    (origin : t.origin = .inModule id) (loaded : r.snapshot.get? id = some m) :
    r.locate t = .ok (home, d) ↔
      m.id = home ∧ m.typeNamed? t.fullName = some d ∧ d.genericParams.length = t.args.length := by
  have searched : r.candidates t.origin = .ok [m] := by simp [origin, candidates, loaded]
  rw [locate_iff, searched]
  cases named : m.typeNamed? t.fullName <;> simp [Snapshot.typeIn?, named, and_assoc]

/-- The reference to the type that a module declares with a name. -/
def inModule (id : ModuleId) (fullName : String) (args : List QualifiedName) : QualifiedName :=
  { ofFullName fullName with args := args, origin := .inModule id }

/-- A declared type is what its name refers to in its module just if the name is written as metadata
writes it. This is so of the first declaration that is kept under a name; a later one is not found,
also where the two names differ in a dot that is not kept. -/
theorem resolve_declared {identity : Assembly.Identity} {declarations : List TypeDeclaration}
    {i levels : Nat} {declaration : TypeDeclaration} {args : List QualifiedName}
    {types : List ClosedType} (loaded : r.snapshot.get? id = some m)
    (built : m.types = (Module.build identity declarations).types)
    (declared : declarations[i]? = some declaration) (depth : r.maxDepth = levels + 1)
    (resolved : Resolution.all (args.map (r.resolveWithin levels)) = .ok types)
    (counted : (declaration.define (.typeDefinition (i + 1).toUInt32)).genericParams.length =
      args.length) :
    ((∀ earlier ∈ declarations.take i,
        keptName earlier.fullName ≠ keptName declaration.fullName) →
      (r.resolve (inModule id declaration.fullName args) =
          .ok (.named id (declaration.define (.typeDefinition (i + 1).toUInt32)) types) ↔
        NameWritten declaration.fullName)) ∧
    ∀ earlier ∈ declarations.take i,
      keptName earlier.fullName = keptName declaration.fullName →
      ∃ j < i, ∃ first, declarations[j]? = some first ∧
        m.typeNamed? (keptName declaration.fullName) =
          some (first.define (.typeDefinition (j + 1).toUInt32)) := by
  have named? (name : String) : m.typeNamed? name =
      (Module.build identity declarations).typeNamed? name := by
    rw [Module.typeNamed?, built, Module.typeNamed?]
  refine ⟨fun first => ?_, fun earlier before same => ?_⟩
  · rw [resolve, depth, resolveWithin_eq_ok]
    constructor
    · rintro ⟨-, home, d, types', located, -, same⟩
      obtain ⟨rfl, rfl, rfl⟩ := ClosedType.named.inj same
      obtain ⟨-, found, -⟩ := (locate_inModule rfl loaded).mp located
      have kept : (declaration.define (.typeDefinition (i + 1).toUInt32)).fullName =
          (inModule id declaration.fullName args).fullName := by
        simpa using List.find?_some found
      rw [TypeDeclaration.fullName_define] at kept
      exact fullName_ofFullName_eq_keptName.mp kept.symm
    · intro written
      have found : m.typeNamed? (keptName declaration.fullName) =
          some (declaration.define (.typeDefinition (i + 1).toUInt32)) := by
        rw [named?]
        exact Module.typeNamed?_build.mpr ⟨i, declaration, declared, rfl, first, rfl⟩
      rw [← fullName_ofFullName_eq_keptName.mpr written] at found
      exact ⟨rfl, id, _, types,
        (locate_inModule rfl loaded).mpr ⟨Snapshot.id_of_get? loaded, found, counted⟩, resolved,
        rfl⟩
  · obtain ⟨j, less, first, listed, named, others⟩ := exists_first_kept before same
    refine ⟨j, less, first, listed, ?_⟩
    rw [named?]
    exact Module.typeNamed?_build.mpr ⟨j, first, listed, named, others, rfl⟩

/-- A generic class and another one nested in it. -/
def nestedGenerics : List TypeDeclaration :=
  [{ fullName := "Ns.Outer\x601", kind := .classType },
    { fullName := "Ns.Outer\x601+Inner\x602", kind := .valueType }]

/-- A module with some types, loaded behind one other. -/
def app (declarations : List TypeDeclaration) : Module :=
  { Module.build (.simple "App" ⟨1, 0, 0, 0⟩) declarations with id := ⟨1⟩ }

/-- Names are looked for in a core library and a module with some types. -/
def declaring (declarations : List TypeDeclaration) : Resolver where
  snapshot :=
    (Snapshot.empty.add (.build (CoreLibrary.identity ⟨4, 0, 0, 0⟩) CoreLibrary.declarations)).add
      (app declarations)

/-- The nested class has three generic parameters, and its name gets as many arguments. -/
theorem nestedGenerics_resolve : ∃ d, nestedGenerics[1]? = some d ∧
    (declaring nestedGenerics).resolve
      (inModule ⟨1⟩ d.fullName (List.replicate 3 (ofFullName "System.Object"))) =
      .ok (.named ⟨1⟩ (d.define (.typeDefinition 2))
        (List.replicate 3 (.named ⟨0⟩ objectClass []))) := by
  have loaded : (declaring nestedGenerics).snapshot.get? ⟨1⟩ = some (app nestedGenerics) := rfl
  have built : (app nestedGenerics).types =
      (Module.build (.simple "App" ⟨1, 0, 0, 0⟩) nestedGenerics).types := rfl
  have depth : (declaring nestedGenerics).maxDepth = defaultMaxDepth - 1 + 1 := rfl
  have resolved : Resolution.all ((List.replicate 3 (ofFullName "System.Object")).map
      ((declaring nestedGenerics).resolveWithin (defaultMaxDepth - 1))) =
      .ok (List.replicate 3 (.named ⟨0⟩ objectClass [])) := rfl
  have written : NameWritten "Ns.Outer\x601+Inner\x602" :=
    fullName_ofFullName_eq_keptName.mp (by decide +kernel)
  have first : ∀ earlier ∈ nestedGenerics.take 1,
      keptName earlier.fullName ≠ keptName "Ns.Outer\x601+Inner\x602" := by decide +kernel
  exact ⟨_, rfl, ((resolve_declared (i := 1) loaded built rfl depth resolved rfl).1 first).mpr
    written⟩

/-- A class of which nothing but the name is stated. -/
def plainClass (fullName : String) : TypeDeclaration :=
  { fullName, kind := .classType }

/-- A reference leaves out an arity of zero, and keeps the dot that a definition loses. -/
theorem unwritten_names_unresolved :
    ((plainClass "Box\x600").define (.typeDefinition 1)).genericParams = [] ∧
      (declaring [plainClass "Box\x600"]).resolve (inModule ⟨1⟩ "Box\x600" []) =
        .error (.unsupported "Box") ∧
      ((plainClass ".A").define (.typeDefinition 1)).genericParams = [] ∧
      (declaring [plainClass ".A"]).resolve (inModule ⟨1⟩ ".A" []) =
        .error (.unsupported ".A") :=
  ⟨rfl, rfl, rfl, rfl⟩

end Resolver

end QualifiedName

end DebugExpr
