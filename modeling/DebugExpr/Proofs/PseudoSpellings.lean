import DebugExpr.Proofs.Numerals
import DebugExpr.Pseudo.Accessor

/-! Spellings of pseudo-variables. A name is a pseudo-variable just if it has one of five forms. The
display of a pseudo-variable is one of its names, and the key of its entry gives the display back,
so that different pseudo-variables have different entries. -/
namespace DebugExpr.Pseudo
open Text

/-- The name has a form of the pseudo-variable. Numbers may have zeros in front and digits of
either case, and `$ReturnValue` alone has index zero. -/
inductive Spells : List Char → Kind → Prop
  | exception : Spells "$exception".toList .exception
  | stowedException : Spells "$stowedexception".toList .stowedException
  | returnValue {name : String} {digits : List Char}
      (cased : name = "$ReturnValue" ∨ name = "$returnvalue")
      (decimal : ∀ c ∈ digits, c.isDigit = true)
      (fits : numeralValue 10 digits ≤ 2 ^ 31 - 1) :
      Spells (name.toList ++ digits) (.returnValue (numeralValue 10 digits))
  | objectId {digits : List Char} (nonempty : digits ≠ [])
      (decimal : ∀ c ∈ digits, c.isDigit = true) (first : digits.head? ≠ some '0') :
      Spells ('$' :: digits) (.objectId (String.ofList digits))
  | address {x : Char} {digits : List Char} (cased : x = 'x' ∨ x = 'X') (nonempty : digits ≠ [])
      (hexadecimal : ∀ c ∈ digits, c.toLower ∈ digitRow)
      (fits : numeralValue 16 digits < 2 ^ 64) :
      Spells ('@' :: '0' :: x :: digits) (.address (.ofNat (numeralValue 16 digits)))

/-- Every name of a pseudo-variable begins with a sign. -/
theorem Spells.sign {cs : List Char} {kind : Kind} (spells : Spells cs kind) :
    cs.head? = some '$' ∨ cs.head? = some '@' := by
  cases spells with
  | exception | stowedException | objectId => exact .inl rfl
  | returnValue cased => rcases cased with rfl | rfl <;> exact .inl rfl
  | address => exact .inr rfl

namespace Kind

variable {lexeme : String} {cs cs' digits : List Char} {kind kind' : Kind} {key : String}

/-- What is read under a condition, and is no pseudo-variable otherwise. -/
theorem ite_eq_iff_of_ne {P : Prop} [Decidable P] {found : Kind} (other : kind ≠ ordinary) :
    (if P then found else ordinary) = kind ↔ P ∧ found = kind := by
  split <;> simp [*, other.symm]

theorem ofReturnValue_eq_iff (other : kind ≠ ordinary) : ofReturnValue digits = kind ↔
    (∀ c ∈ digits, c.isDigit = true) ∧ numeralValue 10 digits ≤ 2 ^ 31 - 1 ∧
      returnValue (numeralValue 10 digits) = kind := by
  cases digits with
  | nil => simp [ofReturnValue, numeralValue]
  | cons c digits =>
    have limit {n : Nat} : n < indexLimit ↔ n ≤ 2 ^ 31 - 1 := Nat.lt_iff_le_pred (by decide)
    simp only [ofReturnValue, List.isEmpty_cons, Bool.false_eq_true, if_false]
    cases read : decimal? (c :: digits) with
    | none =>
      refine iff_of_false other.symm fun accepted => ?_
      rw [decimal?_eq_some.mpr ⟨List.cons_ne_nil _ _, accepted.1, rfl⟩] at read
      cases read
    | some n =>
      obtain ⟨-, decimal, rfl⟩ := decimal?_eq_some.mp read
      rw [and_iff_right decimal, ← limit]
      exact ite_eq_iff_of_ne other

theorem ofObjectId_eq_iff (other : kind ≠ ordinary) : ofObjectId digits = kind ↔
    digits ≠ [] ∧ (∀ c ∈ digits, c.isDigit = true) ∧ digits.head? ≠ some '0' ∧
      objectId (String.ofList digits) = kind := by
  have isId : isObjectId digits = true ↔
      digits ≠ [] ∧ (∀ c ∈ digits, c.isDigit = true) ∧ digits.head? ≠ some '0' := by
    simp [isObjectId, Option.isSome_iff_exists, decimal?_eq_some, and_assoc]
  rw [ofObjectId, ite_eq_iff_of_ne other, isId, and_assoc, and_assoc]

theorem ofAddress_eq_iff (other : kind ≠ ordinary) : ofAddress digits = kind ↔
    digits ≠ [] ∧ (∀ c ∈ digits, c.toLower ∈ digitRow) ∧ numeralValue 16 digits < 2 ^ 64 ∧
      address (.ofNat (numeralValue 16 digits)) = kind := by
  unfold ofAddress
  cases read : hexadecimal? digits with
  | none =>
    refine iff_of_false other.symm fun accepted => ?_
    rw [hexadecimal?_eq_some.mpr ⟨accepted.1, accepted.2.1, rfl⟩] at read
    cases read
  | some value =>
    obtain ⟨nonempty, hexadecimal, rfl⟩ := hexadecimal?_eq_some.mp read
    rw [and_iff_right nonempty, and_iff_right hexadecimal]
    exact ite_eq_iff_of_ne other

theorem ofLexeme_returnValue {name : String} (cased : name = "$ReturnValue" ∨ name = "$returnvalue")
    (split : lexeme.toList = name.toList ++ digits) : ofLexeme lexeme = ofReturnValue digits := by
  have notException : lexeme ≠ "$exception" := by
    rintro rfl
    rcases cased with rfl | rfl <;> simp at split
  have notStowed : lexeme ≠ "$stowedexception" := by
    rintro rfl
    rcases cased with rfl | rfl <;> simp at split
  have named : ("$ReturnValue".toList.isPrefixOf lexeme.toList ||
      "$returnvalue".toList.isPrefixOf lexeme.toList) = true := by
    rw [split]
    rcases cased with rfl | rfl <;> rfl
  have behind : lexeme.toList.drop "$ReturnValue".length = digits := by
    rw [split]
    rcases cased with rfl | rfl <;> rfl
  simp only [ofLexeme, notException, notStowed, named, behind, if_false, if_true]

/-- The beginnings of the names that are words. -/
def words : List String :=
  ["$exception", "$stowedexception", "$ReturnValue", "$returnvalue"]

/-- Behind the dollar sign all words go on with a letter. -/
theorem not_prefix_of_isDigit {c : Char} (split : lexeme.toList = '$' :: c :: digits)
    (decimal : c.isDigit = true) (word : String) (member : word ∈ words) :
    ¬word.toList <+: lexeme.toList := by
  have letters : words.all (fun word => word.toList[1]?.any (!·.isDigit)) = true := by decide
  rintro ⟨rest, same⟩
  obtain ⟨d, second, letter⟩ :=
    (Option.any_eq_true _ _).mp (List.all_eq_true.mp letters word member)
  have inside := (List.getElem?_eq_some_iff.mp second).1
  have both : lexeme.toList[1]? = some d := by rwa [← same, List.getElem?_append_left inside]
  obtain rfl : c = d := by simpa [split] using both
  rw [decimal] at letter
  cases letter

theorem ofLexeme_objectId {c : Char} (split : lexeme.toList = '$' :: c :: digits)
    (decimal : c.isDigit = true) : ofLexeme lexeme = ofObjectId (c :: digits) := by
  have other := not_prefix_of_isDigit split decimal
  have notException : lexeme ≠ "$exception" := fun same =>
    other "$exception" (by decide) (same ▸ List.prefix_rfl)
  have notStowed : lexeme ≠ "$stowedexception" := fun same =>
    other "$stowedexception" (by decide) (same ▸ List.prefix_rfl)
  have unnamed : ("$ReturnValue".toList.isPrefixOf lexeme.toList ||
      "$returnvalue".toList.isPrefixOf lexeme.toList) = false := by
    rw [Bool.eq_false_iff, ne_eq, Bool.or_eq_true, List.isPrefixOf_iff_prefix,
      List.isPrefixOf_iff_prefix]
    rintro (starts | starts)
    · exact other "$ReturnValue" (by decide) starts
    · exact other "$returnvalue" (by decide) starts
  simp only [ofLexeme, notException, notStowed, unnamed, if_false, Bool.false_eq_true]
  rw [split]
  rfl

theorem ofLexeme_address {x : Char} (cased : x = 'x' ∨ x = 'X')
    (split : lexeme.toList = '@' :: '0' :: x :: digits) : ofLexeme lexeme = ofAddress digits := by
  have notException : lexeme ≠ "$exception" := by
    rintro rfl
    simp at split
  have notStowed : lexeme ≠ "$stowedexception" := by
    rintro rfl
    simp at split
  rcases cased with rfl | rfl <;>
    simp [ofLexeme, notException, notStowed, split]

/-- A name that begins as a return value is one of the two spellings and what follows. -/
theorem exists_returnValue (named : ("$ReturnValue".toList.isPrefixOf lexeme.toList ||
      "$returnvalue".toList.isPrefixOf lexeme.toList) = true) :
    ∃ name, (name = "$ReturnValue" ∨ name = "$returnvalue") ∧
      ∃ digits, lexeme.toList = name.toList ++ digits := by
  simp only [Bool.or_eq_true, List.isPrefixOf_iff_prefix] at named
  rcases named with ⟨digits, split⟩ | ⟨digits, split⟩
  · exact ⟨_, .inl rfl, digits, split.symm⟩
  · exact ⟨_, .inr rfl, digits, split.symm⟩

theorem spells_of_ofLexeme (other : kind ≠ ordinary) (read : ofLexeme lexeme = kind) :
    Spells lexeme.toList kind := by
  have steps := read
  simp only [ofLexeme] at steps
  split at steps
  · next same =>
    subst same steps
    exact .exception
  split at steps
  · next same =>
    subst same steps
    exact .stowedException
  split at steps
  · next named =>
    obtain ⟨name, cased, digits, split⟩ := exists_returnValue named
    rw [ofLexeme_returnValue cased split, ofReturnValue_eq_iff other] at read
    obtain ⟨decimal, fits, rfl⟩ := read
    exact split ▸ .returnValue cased decimal fits
  split at steps
  · next digits split =>
    obtain ⟨nonempty, decimal, first, rfl⟩ := (ofObjectId_eq_iff other).mp steps
    exact split ▸ .objectId nonempty decimal first
  · next digits split =>
    obtain ⟨nonempty, hexadecimal, fits, rfl⟩ := (ofAddress_eq_iff other).mp steps
    exact split ▸ .address (.inl rfl) nonempty hexadecimal fits
  · next digits split =>
    obtain ⟨nonempty, hexadecimal, fits, rfl⟩ := (ofAddress_eq_iff other).mp steps
    exact split ▸ .address (.inr rfl) nonempty hexadecimal fits
  · exact absurd steps.symm other

theorem spells_ne_ordinary (spells : Spells cs kind) : kind ≠ ordinary := by
  rintro rfl
  cases spells

theorem ofLexeme_of_spells (split : lexeme.toList = cs) (spells : Spells cs kind) :
    ofLexeme lexeme = kind := by
  have other := spells_ne_ordinary spells
  cases spells with
  | exception =>
    obtain rfl := String.toList_inj.mp split
    rfl
  | stowedException =>
    obtain rfl := String.toList_inj.mp split
    rfl
  | returnValue cased decimal fits =>
    rw [ofLexeme_returnValue cased split]
    exact (ofReturnValue_eq_iff other).mpr ⟨decimal, fits, rfl⟩
  | @objectId digits nonempty decimal first =>
    obtain ⟨c, rest, rfl⟩ := List.exists_cons_of_ne_nil nonempty
    rw [ofLexeme_objectId split (decimal c (by simp))]
    exact (ofObjectId_eq_iff other).mpr ⟨nonempty, decimal, first, rfl⟩
  | address cased nonempty hexadecimal fits =>
    rw [ofLexeme_address cased split]
    exact (ofAddress_eq_iff other).mpr ⟨nonempty, hexadecimal, fits, rfl⟩

/-- A name is read as a pseudo-variable just if it spells it. -/
theorem ofLexeme_eq_iff (other : kind ≠ ordinary) :
    ofLexeme lexeme = kind ↔ Spells lexeme.toList kind :=
  ⟨spells_of_ofLexeme other, ofLexeme_of_spells rfl⟩

theorem toList_returnValueName {index : Nat} (numbered : index ≠ 0) :
    (returnValueName index).toList = "$ReturnValue".toList ++ Nat.toDigits 10 index := by
  have digits : (toString index).toList = Nat.toDigits 10 index := Nat.toList_repr
  have name (s : String) : toString s = s := rfl
  rw [returnValueName, if_neg numbered, String.toList_append, digits, name]

theorem toList_hex_one (n : Nat) : (hex 1 n).toList = Nat.toDigits 16 n := by
  have nonempty : 1 ≤ (Nat.toDigits 16 n).length := Nat.length_toDigits_pos
  simp [hex, List.leftpad, Nat.sub_eq_zero_of_le nonempty]

theorem spells_index {index : Nat} (fits : index ≤ 2 ^ 31 - 1) :
    Spells ("$ReturnValue".toList ++ Nat.toDigits 10 index) (.returnValue index) := by
  have same : numeralValue 10 (Nat.toDigits 10 index) = index :=
    numeralValue_toDigits (by decide) (by decide) index
  have decimal : ∀ c ∈ Nat.toDigits 10 index, c.isDigit = true := fun c member =>
    Nat.isDigit_of_mem_toDigits (by decide) (by decide) member
  have spells := Spells.returnValue (.inl rfl) decimal (same.trans_le fits)
  rwa [same] at spells

theorem spells_value (value : UInt64) :
    Spells ('@' :: '0' :: 'x' :: Nat.toDigits 16 value.toNat) (.address value) := by
  have same : numeralValue 16 (Nat.toDigits 16 value.toNat) = value.toNat :=
    numeralValue_toDigits (by decide) (by decide) value.toNat
  have spells := Spells.address (.inl rfl) Nat.toDigits_ne_nil
    (fun c => mem_digitRow_of_mem_toDigits) (same.trans_lt value.toNat_lt)
  rwa [same, UInt64.ofNat_toNat] at spells

/-- The display of a spelled kind spells it. -/
theorem spells_display (spells : Spells cs kind) : Spells kind.display.toList kind := by
  cases spells with
  | exception => exact .exception
  | stowedException => exact .stowedException
  | @returnValue _ digits cased decimal fits =>
    generalize numeralValue 10 digits = index at fits
    by_cases zero : index = 0
    · subst zero
      have bare : ∀ c ∈ ([] : List Char), c.isDigit = true := nofun
      exact .returnValue (.inl rfl) bare (by decide)
    · rw [display, toList_returnValueName zero]
      exact spells_index fits
  | @objectId digits nonempty decimal first =>
    have shown : (objectId (String.ofList digits)).display.toList = '$' :: digits := by
      simp [display]
    exact shown ▸ .objectId nonempty decimal first
  | @address _ digits _ _ _ fits =>
    generalize UInt64.ofNat (numeralValue 16 digits) = value
    have shown : (address value).display.toList =
        '@' :: '0' :: 'x' :: Nat.toDigits 16 value.toNat := by
      simp [display, toList_hex_one]
    exact shown ▸ spells_value value

/-- The name under which a pseudo-variable is displayed, from the key of its entry. -/
def nameOfKey (key : String) : String :=
  match key.toList.head? with
  | some '$' => key
  | some '0' => "@" ++ key
  | _ => "$" ++ key

theorem nameOfKey_eq_display (spells : Spells cs kind) (isKey : kind.entryKey? = some key) :
    nameOfKey key = kind.display := by
  cases spells with
  | exception | stowedException =>
    cases isKey
    rfl
  | @returnValue _ digits =>
    obtain rfl := Option.some.inj isKey
    generalize numeralValue 10 digits = index
    have first : (returnValueName index).toList.head? = some '$' := by
      by_cases zero : index = 0
      · subst zero
        rfl
      · rw [toList_returnValueName zero]
        rfl
    rw [nameOfKey, first]
    rfl
  | @objectId digits nonempty decimal first =>
    obtain rfl := Option.some.inj isKey
    obtain ⟨c, rest, rfl⟩ := List.exists_cons_of_ne_nil nonempty
    have digit := decimal c (by simp)
    have notZero : c ≠ '0' := by simpa using first
    have notSign : c ≠ '$' := by
      rintro rfl
      cases digit
    simp [nameOfKey, notZero, notSign, display]
  | @address _ digits =>
    obtain rfl := Option.some.inj isKey
    have whole (hex : String) : "@" ++ ("0x" ++ hex) = "@0x" ++ hex :=
      String.toList_inj.mp (by simp)
    simp [nameOfKey, display, whole]

theorem ofLexeme_display (spells : Spells cs kind) : ofLexeme kind.display = kind :=
  ofLexeme_of_spells rfl (spells_display spells)

theorem ofLexeme_nameOfKey (spells : Spells cs kind) (isKey : kind.entryKey? = some key) :
    ofLexeme (nameOfKey key) = kind := by
  rw [nameOfKey_eq_display spells isKey, ofLexeme_display spells]

theorem exists_entryKey (spells : Spells cs kind) : ∃ key, kind.entryKey? = some key := by
  cases spells <;> exact ⟨_, rfl⟩

/-- Different pseudo-variables have different keys. -/
theorem entryKey?_inj (spells : Spells cs kind) (spells' : Spells cs' kind') :
    kind.entryKey? = kind'.entryKey? ↔ kind = kind' := by
  refine ⟨fun same => ?_, congrArg entryKey?⟩
  obtain ⟨key, isKey⟩ := exists_entryKey spells
  rw [← ofLexeme_nameOfKey spells isKey, ← ofLexeme_nameOfKey spells' (same.symm.trans isKey)]

/-- Every spelled kind is read by an accessor. -/
theorem call_isSome (spells : Spells cs kind) : (Call.ofKind? kind).isSome = true := by
  cases spells with
  | exception | stowedException | objectId | address => rfl
  | @returnValue _ digits _ _ fits =>
    have inLimit : numeralValue 10 digits < indexLimit := (Nat.lt_iff_le_pred (by decide)).mpr fits
    simp [Call.ofKind?, Accessor.ofKind?, inLimit]

end Kind

/-- The names of pseudo-variables are those of the five forms, each the name of the kind that it
spells. The display of such a kind is a name of it, an accessor reads it, and its entry is the entry
of no other kind. -/
theorem ofLexeme_canonical (lexeme : String) :
    (∀ kind, Kind.ofLexeme lexeme = kind ∧ kind ≠ .ordinary ↔ Spells lexeme.toList kind) ∧
    ∀ kind, Kind.ofLexeme lexeme = kind → kind ≠ .ordinary →
      Kind.ofLexeme kind.display = kind ∧ (Call.ofKind? kind).isSome = true ∧
      ∀ lexeme' kind', Kind.ofLexeme lexeme' = kind' → kind' ≠ .ordinary →
        (kind.entryKey? = kind'.entryKey? ↔ kind = kind') := by
  refine ⟨fun kind => ⟨?_, ?_⟩, fun kind read other => ?_⟩
  · rintro ⟨read, other⟩
    exact (Kind.ofLexeme_eq_iff other).mp read
  · intro spells
    have other := Kind.spells_ne_ordinary spells
    exact ⟨(Kind.ofLexeme_eq_iff other).mpr spells, other⟩
  · have spells := (Kind.ofLexeme_eq_iff other).mp read
    refine ⟨Kind.ofLexeme_display spells, Kind.call_isSome spells, ?_⟩
    intro lexeme' kind' read' other'
    exact Kind.entryKey?_inj spells ((Kind.ofLexeme_eq_iff other').mp read')

/-- Zeros in front and capital digits are no part of what is displayed. -/
theorem capitalAddress_canonical :
    Spells "@0X01AB".toList (.address 0x1AB) ∧
    Kind.ofLexeme "@0X01AB" = .address 0x1AB ∧ Kind.ofLexeme "$returnvalue007" = .returnValue 7 ∧
    Kind.ofLexeme (Kind.address 0x1AB).display = .address 0x1AB ∧
    (Kind.address 0x1AB).entryKey? ≠ (Kind.returnValue 7).entryKey? := by
  have address : Kind.ofLexeme "@0X01AB" = .address 0x1AB := by decide
  have returned : Kind.ofLexeme "$returnvalue007" = .returnValue 7 := by decide
  obtain ⟨spells, canonical⟩ := ofLexeme_canonical "@0X01AB"
  obtain ⟨displayed, -, keys⟩ := canonical _ address (by decide)
  refine ⟨(spells _).mp ⟨address, by decide⟩, address, returned, displayed, fun same => ?_⟩
  exact absurd ((keys "$returnvalue007" _ returned (by decide)).mp same) (by decide)

end DebugExpr.Pseudo
