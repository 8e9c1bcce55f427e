import DebugExpr.Metadata.CoreLibrary
import DebugExpr.Proofs.AssemblyNames

/-! Components of display names that are left out. The text that lacks the components of some keys
states the same reference without them. A version and a key token only narrow down which assemblies
match exactly, so that without them no fewer match. A culture has to be that of the assembly even
where none is stated. -/
namespace DebugExpr.Assembly
open Metadata Text

/-- The key of a component, in lower case. -/
def keyOf? (component : List Char) : Option String :=
  (cutFirst '=' (trim component)).map fun (key, _) => lower (String.ofList (trim key))

/-- The component stays when those of some keys are left out. -/
def isKept (dropped : String → Bool) (component : List Char) : Bool :=
  !(keyOf? component).any dropped

/-- A display name without the components of some keys. -/
def withoutKeys (dropped : String → Bool) (text : String) : String :=
  match text.toList.splitOn ',' with
  | [] => ""
  | name :: components =>
    String.ofList ([','].intercalate (name :: components.filter (isKept dropped)))

namespace Reference

/-- The reference without what some keys state. -/
def without (r : Reference) (dropped : String → Bool) : Reference where
  name := r.name
  version := if dropped "version" then none else r.version
  culture := if dropped "culture" then none else r.culture
  keyToken := if dropped "publickeytoken" then none else r.keyToken

variable {r next : Reference} {key value : String} {dropped : String → Bool}

theorem without_named (name : String) (dropped : String → Bool) :
    (named name).without dropped = named name := by
  simp [without, named]

/-- A component whose key is left out adds nothing. -/
theorem withComponent_dropped (taken : r.withComponent key value = .ok next)
    (isDropped : dropped (lower key) = true) : next.without dropped = r.without dropped := by
  unfold withComponent at taken
  split at taken
  · rename_i version
    obtain ⟨v, -, rfl⟩ := by simpa only [bind_eq_ok, pure_eq_ok] using taken
    simp [without, version ▸ isDropped]
  · rename_i culture
    split at taken
    · cases taken
    · split at taken <;> cases taken
      · rfl
      · simp [without, culture ▸ isDropped]
  · rename_i keyToken
    split at taken
    · cases taken
      rfl
    · obtain ⟨token, -, rfl⟩ := by simpa only [bind_eq_ok, pure_eq_ok] using taken
      simp [without, keyToken ▸ isDropped]
  · cases taken
    rfl

/-- A component that stays adds the same to what lacks the other keys. -/
theorem withComponent_kept (taken : r.withComponent key value = .ok next)
    (kept : dropped (lower key) = false) :
    (r.without dropped).withComponent key value = .ok (next.without dropped) := by
  unfold withComponent at taken ⊢
  split at taken
  · rename_i version
    obtain ⟨v, reads, rfl⟩ := by simpa only [bind_eq_ok, pure_eq_ok] using taken
    simp [reads, without, version ▸ kept]
  · rename_i culture
    split at taken
    · cases taken
    · rename_i valid
      split at taken <;> rename_i neutral <;> cases taken
      · simp [valid, neutral]
      · simp [valid, neutral, without, culture ▸ kept]
  · rename_i keyToken
    split at taken
    · rename_i null
      cases taken
      simp [null]
    · rename_i null
      obtain ⟨token, reads, rfl⟩ := by simpa only [bind_eq_ok, pure_eq_ok] using taken
      simp [null, reads, without, keyToken ▸ kept]
  · cases taken
    rfl

/-- The components that stay are read as before. -/
theorem withComponents_without {text : String} (other : String) {components : List (List Char)}
    (taken : r.withComponents text (components.map trim) = .ok next) :
    (r.without dropped).withComponents other ((components.filter (isKept dropped)).map trim) =
      .ok (next.without dropped) := by
  induction components generalizing r with
  | nil =>
    cases taken
    rfl
  | cons component components ih =>
    rw [List.map_cons, withComponents] at taken
    split at taken
    · cases taken
    · rename_i key value cut
      obtain ⟨middle, step, rest⟩ := bind_eq_ok.mp taken
      have key? : keyOf? component = some (lower (String.ofList (trim key))) := by
        simp [keyOf?, cut]
      cases isDropped : dropped (lower (String.ofList (trim key))) with
      | true =>
        have left : isKept dropped component = false := by simp [isKept, key?, isDropped]
        rw [List.filter_cons_of_neg (by simp [left]), ← withComponent_dropped step isDropped]
        exact ih rest
      | false =>
        have stays : isKept dropped component = true := by simp [isKept, key?, isDropped]
        rw [List.filter_cons_of_pos stays, List.map_cons, withComponents]
        simp only [cut, withComponent_kept step isDropped, ok_bind]
        exact ih rest

theorem parse_withoutKeys {text : String} (read : parse text = .ok r) (dropped : String → Bool) :
    parse (withoutKeys dropped text) = .ok (r.without dropped) := by
  unfold parse at read
  cases parts : text.toList.splitOn ',' with
  | nil => simp at parts
  | cons name components =>
    simp only [parts, List.map_cons] at read
    split at read
    · rename_i simple
      have separate : ∀ part ∈ name :: components.filter (isKept dropped), ',' ∉ part := by
        intro part member
        have among : part ∈ text.toList.splitOn ',' := by
          rw [parts]
          exact List.cons_subset_cons name List.filter_sublist.subset member
        exact not_mem_of_mem_splitOn among
      rw [parse, withoutKeys, parts]
      simp only [String.toList_ofList, List.splitOn_intercalate ',' separate (by simp),
        List.map_cons, simple, if_true]
      rw [← without_named (String.ofList (trim name)) dropped]
      exact withComponents_without _ read
    · cases read

example : withoutKeys (· == "version") "A, VERSION = 1.0, Culture=fr" = "A, Culture=fr" := by
  decide +kernel

/-- A text without a comma states a simple name alone. -/
theorem parse_bare {text : String} (read : parse text = .ok r) (bare : ',' ∉ text.toList) :
    r = named (String.ofList (trim text.toList)) := by
  have separate : ∀ part ∈ [text.toList], ',' ∉ part := by simpa using bare
  have parts : text.toList.splitOn ',' = [text.toList] := by
    simpa [List.intercalate] using List.splitOn_intercalate ',' separate (by simp)
  simp only [parse, parts, List.map_cons, List.map_nil] at read
  split at read
  · cases read
    rfl
  · cases read

end Reference

theorem exact_accepts_iff {r : Reference} {i : Identity} : Policy.exact.accepts r i = true ↔
    sameCaseless r.name i.name = true ∧ (∀ v ∈ r.version, v = i.version) ∧
      r.culture = i.culture ∧ ∀ token ∈ r.keyToken, some token = i.keyToken := by
  change r.matchesExactly i = true ↔ _
  simp only [Reference.matchesExactly, Bool.and_eq_true, Option.all_eq_true, beq_iff_eq,
    and_assoc, Option.mem_def]

/-- Take the components of some keys out of a display name. What is left states the same reference
without them. It matches exactly what the whole did, unless a culture was among them. A bare name
matches just the culture-neutral assemblies of that name. -/
theorem exact_withoutKeys (text : String) (r : Reference) (read : Reference.parse text = .ok r) :
    (∀ dropped, Reference.parse (withoutKeys dropped text) = .ok (r.without dropped) ∧
      ∀ i, Policy.exact.accepts r i = true → (Policy.exact.accepts (r.without dropped) i = true ↔
        (dropped "culture" = true → r.culture = none))) ∧
      (',' ∉ text.toList → r.name = String.ofList (trim text.toList) ∧
        ∀ i, Policy.exact.accepts r i = true ↔
          sameCaseless r.name i.name = true ∧ i.culture = none) := by
  refine ⟨fun dropped => ⟨Reference.parse_withoutKeys read dropped, ?_⟩, ?_⟩
  · intro i accepts
    obtain ⟨name, version, culture, keyToken⟩ := exact_accepts_iff.mp accepts
    have versionLeft : ∀ v ∈ (r.without dropped).version, v = i.version := by
      intro v stated
      refine version v ?_
      cases isDropped : dropped "version" <;> simp_all [Reference.without]
    have keyTokenLeft : ∀ token ∈ (r.without dropped).keyToken, some token = i.keyToken := by
      intro token stated
      refine keyToken token ?_
      cases isDropped : dropped "publickeytoken" <;> simp_all [Reference.without]
    have cultureLeft : (r.without dropped).culture = i.culture ↔
        (dropped "culture" = true → r.culture = none) := by
      rw [← culture]
      cases isDropped : dropped "culture" with
      | true => simp [Reference.without, isDropped, eq_comm (b := r.culture)]
      | false => simp [Reference.without, isDropped]
    rw [exact_accepts_iff, cultureLeft]
    exact ⟨fun h => h.2.2.1, fun h => ⟨name, versionLeft, h, keyTokenLeft⟩⟩
  · intro bare
    obtain rfl := Reference.parse_bare read bare
    refine ⟨rfl, fun i => ?_⟩
    rw [exact_accepts_iff]
    simp [Reference.named, eq_comm (b := i.culture)]

/-- The display name of a core library. -/
def coreName : String :=
  "mscorlib, Version=4.0.0.0, Culture=neutral, PublicKeyToken=b77a5c561934e089"

/-- A core library is matched by its display name, by what is left of it without the version and the
key token, and by its bare name. -/
theorem coreName_matches : ∃ r bare,
    Reference.parse coreName = .ok r ∧ Reference.parse "MSCORLIB" = .ok bare ∧
      Policy.exact.accepts r (CoreLibrary.identity ⟨4, 0, 0, 0⟩) = true ∧
      Policy.exact.accepts (r.without (· != "culture")) (CoreLibrary.identity ⟨4, 0, 0, 0⟩) = true ∧
      Policy.exact.accepts bare (CoreLibrary.identity ⟨4, 0, 0, 0⟩) = true := by
  obtain ⟨r, read, accepts⟩ := exists_ok_of_any (x := Reference.parse coreName)
    (p := fun r => Policy.exact.accepts r (CoreLibrary.identity ⟨4, 0, 0, 0⟩) = true)
    (by decide +kernel)
  obtain ⟨bare, readBare, rfl⟩ := exists_ok_of_any (x := Reference.parse "MSCORLIB")
    (p := fun r => r = .named "MSCORLIB") (by decide +kernel)
  obtain ⟨-, left⟩ := (exact_withoutKeys coreName r read).1 (· != "culture")
  obtain ⟨-, bareAccepts⟩ := (exact_withoutKeys "MSCORLIB" _ readBare).2 (by decide)
  exact ⟨r, _, read, readBare, accepts, (left _ accepts).mpr nofun,
    (bareAccepts _).mpr ⟨by decide +kernel, rfl⟩⟩

/-- A French assembly is matched by its display name, and not by the bare name that is left without
the culture. -/
theorem bareName_misses_french : ∃ i r bare,
    Identity.parse "A, Culture=fr" = .ok i ∧ Reference.parse "A, Culture=fr" = .ok r ∧
      Policy.exact.accepts r i = true ∧
      Reference.parse (withoutKeys (· == "culture") "A, Culture=fr") = .ok bare ∧
      sameCaseless bare.name i.name = true ∧ Policy.exact.accepts bare i = false := by
  obtain ⟨i, states, rfl⟩ := exists_ok_of_any (x := Identity.parse "A, Culture=fr")
    (p := fun i => i = ⟨"A", .unknown, some "fr", none⟩) (by decide +kernel)
  obtain ⟨r, read, accepts⟩ := exists_ok_of_any (x := Reference.parse "A, Culture=fr")
    (p := fun r => Policy.exact.accepts r ⟨"A", .unknown, some "fr", none⟩ = true)
    (by decide +kernel)
  obtain ⟨bare, readBare, misses⟩ := exists_ok_of_any
    (x := Reference.parse (withoutKeys (· == "culture") "A, Culture=fr"))
    (p := fun bare => sameCaseless bare.name "A" = true ∧
      Policy.exact.accepts bare ⟨"A", .unknown, some "fr", none⟩ = false) (by decide +kernel)
  exact ⟨_, r, bare, states, read, accepts, readBare, misses⟩

end DebugExpr.Assembly
