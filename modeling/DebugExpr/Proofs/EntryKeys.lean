import DebugExpr.Proofs.InspectedNames
import DebugExpr.Proofs.PseudoSpellings
import DebugExpr.Proofs.TokenSpelling

/-! Entries of pseudo-variables in an inspection context. They stand beside those of declared
variables, and are kept apart from them by the spelling of the key. The keys of object ids and of
addresses lack the sign of the name, so that a name without the sign reaches their entries; no text
has such a name. -/
namespace DebugExpr
open DebugExpr.Source

namespace Pseudo

/-- The key under which a pseudo-variable that has a name finds its entry. -/
structure IsEntryKey (key : String) (kind : Kind) : Prop where
  named : ∃ lexeme, Kind.ofLexeme lexeme = kind
  isKey : kind.entryKey? = some key

/-- The key of a pseudo-variable that is not also displayed so: the sign is missing. -/
def IsBareKey (key : String) : Prop :=
  ∃ kind, IsEntryKey key kind ∧ kind.display ≠ key

variable {r : QualifiedName.Resolver} {context : Context} {lexeme key : String} {kind kind' : Kind}
  {o : Occurrence}

namespace IsEntryKey

theorem ne_ordinary (isKey : IsEntryKey key kind) : kind ≠ .ordinary := by
  rintro rfl
  cases isKey.isKey

theorem spells (isKey : IsEntryKey key kind) : ∃ cs, Spells cs kind := by
  obtain ⟨lexeme, read⟩ := isKey.named
  exact ⟨_, (Kind.ofLexeme_eq_iff isKey.ne_ordinary).mp read⟩

theorem unique (isKey : IsEntryKey key kind) (isKey' : IsEntryKey key kind') : kind = kind' := by
  obtain ⟨_, spells⟩ := isKey.spells
  obtain ⟨_, spells'⟩ := isKey'.spells
  exact (Kind.entryKey?_inj spells spells').mp (isKey.isKey.trans isKey'.isKey.symm)

/-- A key with its sign is itself a name of the pseudo-variable. -/
theorem ofLexeme_eq (isKey : IsEntryKey key kind) (signed : ¬IsBareKey key) :
    Kind.ofLexeme key = kind := by
  obtain ⟨_, spells⟩ := isKey.spells
  have shown : kind.display = key := by
    by_contra other
    exact signed ⟨kind, isKey, other⟩
  exact shown ▸ Kind.ofLexeme_display spells

end IsEntryKey

/-- Keys without their sign begin with a digit. -/
theorem IsBareKey.digit (bare : IsBareKey key) :
    ∃ c ∈ key.toList.head?, c.isDigit = true := by
  obtain ⟨kind, isKey, other⟩ := bare
  obtain ⟨cs, spells⟩ := isKey.spells
  have same := isKey.isKey
  cases spells with
  | exception | stowedException | returnValue => exact absurd (Option.some.inj same) other
  | @objectId digits nonempty decimal =>
    obtain rfl := Option.some.inj same
    obtain ⟨c, rest, rfl⟩ := List.exists_cons_of_ne_nil nonempty
    exact ⟨c, by simp, decimal c (by simp)⟩
  | address =>
    obtain rfl := Option.some.inj same
    exact ⟨'0', by simp, rfl⟩

/-- A key without its sign is the name of no pseudo-variable. -/
theorem IsBareKey.ofLexeme_eq (bare : IsBareKey key) : Kind.ofLexeme key = .ordinary := by
  by_contra other
  obtain ⟨c, first, digit⟩ := bare.digit
  have spells := (Kind.ofLexeme_eq_iff other).mp rfl
  rcases spells.sign with sign | sign
  all_goals
    rw [sign] at first
    cases first
    cases digit

/-- No name and no address of a scanned text is a key without its sign. -/
theorem not_bare_of_scan {text name : String} {scanned : Scanned} {token : Token}
    (scans : scan text = .ok scanned) (member : token ∈ scanned.tokens)
    (names : token.kind = .identifier name ∨ token.kind = .address name) : ¬IsBareKey name := by
  intro bare
  obtain ⟨c, first, digit⟩ := bare.digit
  have spellable := spellable_of_scan scans token member
  rcases names with isName | isAddress
  · rw [isName] at spellable
    obtain ⟨d, rest, split, start, -⟩ := spellable
    obtain rfl : d = c := by simpa [split] using first
    rw [isDigit_of_isNameStart start] at digit
    cases digit
  · rw [isAddress] at spellable
    obtain ⟨x, rest, split, -⟩ := spellable
    obtain rfl : '@' = c := by simpa [split] using first
    cases digit

/-- A bound name is the pseudo-variable that it spells, or else a declared variable. -/
theorem source_of_bind (h : bind r context lexeme = .ok (some o)) :
    Kind.ofLexeme lexeme = .ordinary ∧ o.source = .declared lexeme ∨
      Kind.ofLexeme lexeme ≠ .ordinary ∧ o.source = .pseudo (Kind.ofLexeme lexeme) := by
  unfold bind at h
  split at h
  · next ordinary =>
    unfold bindDeclared at h
    split at h
    · cases h
    · obtain ⟨type, -, h⟩ := bind_eq_ok.mp h
      obtain rfl := Option.some.inj (pure_eq_ok.mp h)
      exact .inl ⟨ordinary, rfl⟩
  · next other =>
    split at h
    · obtain ⟨accessorType, -, h⟩ := bind_eq_ok.mp h
      split at h
      all_goals
        obtain ⟨type, -, h⟩ := bind_eq_ok.mp h
        obtain ⟨call, -, rfl⟩ := Option.map_eq_some_iff.mp (pure_eq_ok.mp h)
        exact .inr ⟨other, rfl⟩
    · cases h

theorem assignable_iff_ordinary (h : bind r context lexeme = .ok (some o)) :
    o.assignable = true ↔ Kind.ofLexeme lexeme = .ordinary := by
  rcases source_of_bind h with ⟨ordinary, source⟩ | ⟨other, source⟩
  · simp [Occurrence.assignable, source, ordinary]
  · simp [Occurrence.assignable, source, other]

/-- An entry of a pseudo-variable reaches no name that spells another one, or none. -/
theorem bind_insert_of_ne (isKey : IsEntryKey key kind) (other : Kind.ofLexeme lexeme ≠ kind)
    (differs : lexeme ≠ key) (entry : Entry) :
    bind r (context.insert key entry) lexeme = bind r context lexeme :=
  bind_eq <| Context.alike_insert differs fun same =>
    other (IsEntryKey.unique ⟨⟨lexeme, rfl⟩, same⟩ isKey)

/-- The key of a pseudo-variable is bound as a declared variable just if it is without its sign. To
any other name the entries of pseudo-variables are shut: an entry is reached by the names of its
pseudo-variable alone, and these cannot be assigned to. Every name in a text is of this sort. -/
theorem entries_apart (r : QualifiedName.Resolver) (context : Context) :
    (∀ lexeme o, bind r context lexeme = .ok (some o) → ∀ kind, IsEntryKey lexeme kind →
      (o.assignable = true ↔ IsBareKey lexeme)) ∧
    (∀ lexeme, ¬IsBareKey lexeme → ∀ key kind, IsEntryKey key kind →
      (Kind.ofLexeme lexeme ≠ kind → ∀ entry,
        bind r (context.insert key entry) lexeme = bind r context lexeme) ∧
      (Kind.ofLexeme lexeme = kind → ∀ o, bind r context lexeme = .ok (some o) →
        o.assignable = false)) ∧
    ∀ text scanned, scan text = .ok scanned → ∀ token ∈ scanned.tokens, ∀ name,
      token.kind = .identifier name ∨ token.kind = .address name → ¬IsBareKey name := by
  refine ⟨fun lexeme o h kind isKey => ?_, fun lexeme signed key kind isKey => ⟨?_, ?_⟩, ?_⟩
  · rw [assignable_iff_ordinary h]
    refine ⟨fun ordinary => ?_, IsBareKey.ofLexeme_eq⟩
    by_contra signed
    exact isKey.ne_ordinary ((isKey.ofLexeme_eq signed).symm.trans ordinary)
  · intro other entry
    have differs : lexeme ≠ key := by
      rintro rfl
      exact other (isKey.ofLexeme_eq signed)
    exact bind_insert_of_ne isKey other differs entry
  · intro read o h
    rw [Bool.eq_false_iff, ne_eq, assignable_iff_ordinary h, read]
    exact isKey.ne_ordinary
  · intro text scanned scans token member name
    exact not_bare_of_scan scans member

/-- An integer under the key of the object id `$23`. -/
def numbered : Context :=
  (Sample.scope [] []).context.insert "23" (.qualifiedName "System.Int32")

theorem numbered_isEntryKey : IsEntryKey "23" (.objectId "23") :=
  ⟨⟨"$23", by decide⟩, rfl⟩

/-- In this context a name is bound, to what can be assigned to or not. -/
theorem numbered_binds (lexeme : String) (assignable : Bool)
    (binds : (bind (Sample.scope [] []).resolver numbered lexeme).toOption.any
      (fun found => decide ((found.map (·.assignable)) = some assignable)) = true) :
    ∃ o, bind (Sample.scope [] []).resolver numbered lexeme = .ok (some o) ∧
      o.assignable = assignable := by
  obtain ⟨found, h, states⟩ := exists_ok_of_any binds
  obtain ⟨o, rfl, same⟩ := Option.map_eq_some_iff.mp states
  exact ⟨o, h, same⟩

/-- An entry is reached with the sign, and by no other name of a text. -/
theorem number_apart :
    (∃ o, bind (Sample.scope [] []).resolver numbered "23" = .ok (some o) ∧ IsBareKey "23") ∧
    (∃ o, bind (Sample.scope [] []).resolver numbered "$23" = .ok (some o) ∧
      o.assignable = false) ∧
    ¬IsBareKey "x" ∧ bind (Sample.scope [] []).resolver numbered "x" =
      bind (Sample.scope [] []).resolver (Sample.scope [] []).context "x" := by
  obtain ⟨keys, apart, -⟩ := entries_apart (Sample.scope [] []).resolver numbered
  obtain ⟨-, fresh, names⟩ :=
    entries_apart (Sample.scope [] []).resolver (Sample.scope [] []).context
  obtain ⟨scanned, scans, first, last⟩ := exists_ok_of_any (x := scan "x + $23")
    (p := fun scanned => ⟨.identifier "x", 0⟩ ∈ scanned.tokens ∧
      ⟨.identifier "$23", 4⟩ ∈ scanned.tokens) (by decide +kernel)
  have signed : ¬IsBareKey "$23" := names _ scanned scans _ last _ (.inl rfl)
  have plain : ¬IsBareKey "x" := names _ scanned scans _ first _ (.inl rfl)
  refine ⟨?_, ?_, plain, ?_⟩
  · obtain ⟨o, h, assignable⟩ := numbered_binds "23" true (by decide +kernel)
    exact ⟨o, h, (keys _ o h _ numbered_isEntryKey).mp assignable⟩
  · obtain ⟨o, h, -⟩ := numbered_binds "$23" false (by decide +kernel)
    exact ⟨o, h, (apart _ signed _ _ numbered_isEntryKey).2 (by decide) o h⟩
  · exact (fresh _ plain _ _ numbered_isEntryKey).1 (by decide) _

/-- The entry of an object id is served as a declared variable to the digits of the id. -/
theorem digits_assignable : IsEntryKey "23" (.objectId "23") ∧
    ∃ o, bind (Sample.scope [] []).resolver numbered "23" = .ok (some o) ∧ o.assignable = true :=
  ⟨numbered_isEntryKey, numbered_binds "23" true (by decide +kernel)⟩

end Pseudo

end DebugExpr
