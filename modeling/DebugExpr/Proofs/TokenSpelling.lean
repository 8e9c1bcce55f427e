import DebugExpr.Proofs.Repetition
import DebugExpr.Source.Scan
import Mathlib.Data.List.TakeWhile

/-! Spelling of tokens. Every token that is scanned has a spelling of its own, and tokens spelled
with a blank between each two are scanned back. Only the word `global` depends on what follows: it
is a token of its own before a double colon, and a double colon stands nowhere else. -/
namespace DebugExpr.Source
open Text Metadata Parsing

/-- The word is no name by itself. -/
def isReserved (word : String) : Bool :=
  (Keyword.ofWord? word).isSome || (Primitive.ofKeyword? word).isSome

/-- A character of a string as it stands between quotation marks. -/
def escape : Char → List Char
  | '\x22' => ['\\', '\x22']
  | '\\' => ['\\', '\\']
  | '\n' => ['\\', 'n']
  | '\r' => ['\\', 'r']
  | '\t' => ['\\', 't']
  | '\x00' => ['\\', '0']
  | c => [c]

/-- A token as it is written. A reserved word that is a name is marked by an at sign. -/
def TokenKind.spell : TokenKind → List Char
  | identifier name => if isReserved name then '@' :: name.toList else name.toList
  | address text => text.toList
  | global => "global".toList
  | keyword word => word.display.toList
  | typeKeyword type => type.display.toList
  | integer value => Nat.toDigits 10 value.toNat
  | string value => '\x22' :: value.toList.flatMap escape ++ ['\x22']
  | mark sign => sign.display.toList

/-- The tokens with a blank between each two. -/
def spellAll (kinds : List TokenKind) : List Char :=
  [' '].intercalate (kinds.map TokenKind.spell)

/-- A name: one with a dollar sign in front, or a word. -/
def IsName (name : List Char) : Prop :=
  ∃ c rest, name = c :: rest ∧ isNameStart c = true ∧ ∀ d ∈ rest, isNamePart d = true

/-- A raw address. -/
def IsAddress (text : List Char) : Prop :=
  ∃ x rest, text = '@' :: '0' :: x :: rest ∧ (x = 'x' ∨ x = 'X') ∧ ∀ d ∈ rest, isNamePart d = true

/-- The token has a spelling. -/
def TokenKind.Spellable : TokenKind → Prop
  | identifier name => IsName name.toList
  | address text => IsAddress text.toList
  | typeKeyword type => type.keyword?.isSome = true
  | _ => True

section Characters
variable {c : Char}

theorem isBlank_of_isLetter (letter : isLetter c = true) : isBlank c = false := by
  unfold isLetter at letter
  split at letter
  · have bounds := toNat_of_isAlpha letter
    exact isBlank_of_visible (by omega) (by omega)
  · exact Ranges.disjoint_of_apart (by decide +kernel) letter

theorem isDigit_of_isLetter (letter : isLetter c = true) : c.isDigit = false := by
  rw [Bool.eq_false_iff]
  intro digit
  have low := toNat_of_isDigit digit
  rw [isLetter, if_pos (by omega)] at letter
  have high := toNat_of_isAlpha letter
  omega

/-- What a name begins with. -/
theorem isNameStart_cases (start : isNameStart c = true) :
    c = '$' ∨ c = '_' ∨ isLetter c = true := by
  simp only [isNameStart, Bool.or_eq_true, beq_iff_eq] at start
  obtain (letter | low) | dollar := start
  · exact .inr (.inr letter)
  · exact .inr (.inl low)
  · exact .inl dollar

theorem isBlank_of_isNameStart (start : isNameStart c = true) : isBlank c = false := by
  obtain rfl | rfl | letter := isNameStart_cases start
  · rfl
  · rfl
  · exact isBlank_of_isLetter letter

theorem isDigit_of_isNameStart (start : isNameStart c = true) : c.isDigit = false := by
  obtain rfl | rfl | letter := isNameStart_cases start
  · rfl
  · rfl
  · exact isDigit_of_isLetter letter

theorem ne_of_isNameStart (start : isNameStart c = true) {d : Char}
    (other : isNameStart d = false) : c ≠ d := by
  rintro rfl
  rw [start] at other
  cases other

end Characters

/-- The input does not go on with characters of a class. -/
def Breaks (p : Char → Bool) (rest : List Char) : Prop :=
  ∀ c ∈ rest.head?, p c = false

/-- The input is over, or a blank follows. -/
def Parted (rest : List Char) : Prop :=
  ∀ c ∈ rest.head?, c = ' '

theorem Parted.breaks {p : Char → Bool} {rest : List Char} (parted : Parted rest)
    (apart : p ' ' = false) : Breaks p rest :=
  fun c head => parted c head ▸ apart

/-- A double colon follows, behind blanks or none. -/
def beforeColons (rest : List Char) : Bool :=
  [':', ':'].isPrefixOf (dropBlanks rest)

/-- The token is scanned from its spelling when the rest follows. -/
def ReadsBack (length : Nat) (k : TokenKind) (rest : List Char) : Prop :=
  ∃ c tail, k.spell = c :: tail ∧ isBlank c = false ∧ (c = ':' → k = .mark .doubleColon) ∧
    scanToken length c (tail ++ rest) = .ok (k, rest)

section Scanning
variable {length : Nat} {rest : List Char}

theorem span_breaks {p : Char → Bool} {inside : List Char} (all : ∀ d ∈ inside, p d = true)
    (ends : Breaks p rest) :
    (inside ++ rest).takeWhile p = inside ∧ (inside ++ rest).dropWhile p = rest := by
  have outside : rest.takeWhile p = [] ∧ rest.dropWhile p = rest := by
    cases rest with
    | nil => exact ⟨rfl, rfl⟩
    | cons c rest => simp [ends c rfl]
  rw [List.takeWhile_append_of_pos all, List.dropWhile_append_of_pos all, outside.1, outside.2,
    List.append_nil]
  exact ⟨rfl, rfl⟩

/-- A token that begins as a name is a word or a name with a dollar sign. -/
theorem scanToken_of_isNameStart {c : Char} (start : isNameStart c = true) :
    scanToken length c rest = .ok (scanWord (c :: rest)) := by
  have digit := isDigit_of_isNameStart start
  have quote : c ≠ '\x22' := ne_of_isNameStart start (by decide)
  have sign : c ≠ '@' := ne_of_isNameStart start (by decide)
  simp [scanToken, digit, quote, sign, start]

theorem scanWord_word {c : Char} {inside : List Char} (start : isNameStart c = true)
    (plain : c ≠ '$') (all : ∀ d ∈ inside, isNamePart d = true) (ends : Breaks isNamePart rest) :
    scanWord (c :: inside ++ rest) = (kindOfWord (String.ofList (c :: inside)) rest, rest) := by
  have all : ∀ d ∈ c :: inside, isNamePart d = true := by
    refine List.forall_mem_cons.mpr ⟨?_, all⟩
    obtain dollar | rfl | letter := isNameStart_cases start
    · exact absurd dollar plain
    · rfl
    · simp [isNamePart, letter]
  obtain ⟨taken, left⟩ := span_breaks all ends
  rw [List.cons_append, scanWord.eq_2 _ (by simpa using plain), ← List.cons_append]
  simp only [taken, left]

theorem kindOfWord_name {name : String} (free : isReserved name = false)
    (apart : name = "global" → beforeColons rest = false) :
    kindOfWord name rest = .identifier name := by
  simp only [isReserved, Bool.or_eq_false_iff, Option.isSome_eq_false_iff,
    Option.isNone_iff_eq_none] at free
  have alone : ¬ (name = "global" ∧ [':', ':'].isPrefixOf (dropBlanks rest) = true) := by
    rintro ⟨isGlobal, colons⟩
    have none := apart isGlobal
    rw [beforeColons, colons] at none
    cases none
  rw [kindOfWord, if_neg alone, free.1, free.2]

/-- Reserved words are made of letters. -/
theorem isLetter_of_isReserved {name : String} (reserved : isReserved name = true) :
    name.toList.all isLetter = true := by
  simp only [isReserved, Bool.or_eq_true, Option.isSome_iff_exists] at reserved
  obtain ⟨word, found⟩ | ⟨type, found⟩ := reserved
  · obtain rfl : word.display = name := by simpa using List.find?_some found
    cases word <;> decide
  · have found := List.find?_some found
    cases type <;> simp [Primitive.keyword?] at found <;> subst found <;> decide

theorem scanAt_name {c : Char} {inside : List Char} (letter : isLetter c = true)
    (all : ∀ d ∈ c :: inside, isNamePart d = true) (ends : Breaks isNamePart rest) :
    scanAt length (c :: inside ++ rest) =
      .ok (.identifier (String.ofList (c :: inside)), rest) := by
  obtain ⟨taken, left⟩ := span_breaks all ends
  have zero : c ≠ '0' := by
    rintro rfl
    cases letter
  rw [scanAt.eq_2]
  · simp only [taken, left]
    simp [letter]
  · intro x digits same
    exact zero (List.cons.inj same).1

theorem spell_free {name : String} (free : isReserved name = false) :
    (TokenKind.identifier name).spell = name.toList :=
  if_neg (by simp [free])

theorem spell_reserved {name : String} (reserved : isReserved name = true) :
    (TokenKind.identifier name).spell = '@' :: name.toList :=
  if_pos reserved

theorem scanToken_at : scanToken length '@' rest = scanAt length rest :=
  rfl

/-- A name is scanned from its spelling. -/
theorem scan_identifier {name : String} (isName : IsName name.toList)
    (ends : Breaks isNamePart rest)
    (apart : name = "global" → beforeColons rest = false) :
    ReadsBack length (.identifier name) rest := by
  obtain ⟨c, inside, split, start, all⟩ := isName
  have whole : name = String.ofList (c :: inside) := by
    rw [← split, String.ofList_toList]
  by_cases reserved : isReserved name = true
  · have letters := isLetter_of_isReserved reserved
    rw [split, List.all_eq_true] at letters
    have parts : ∀ d ∈ c :: inside, isNamePart d = true := fun d member => by
      simp [isNamePart, letters d member]
    refine ⟨'@', c :: inside, ?_, rfl, nofun, ?_⟩
    · rw [spell_reserved reserved, split]
    · rw [scanToken_at, scanAt_name (letters c (by simp)) parts ends, ← whole]
  · have free : isReserved name = false := by simpa using reserved
    have other : c ≠ ':' := ne_of_isNameStart start (by decide)
    refine ⟨c, inside, ?_, isBlank_of_isNameStart start, fun colon => absurd colon other, ?_⟩
    · rw [spell_free free, split]
    · rw [scanToken_of_isNameStart start]
      by_cases dollar : c = '$'
      · subst dollar
        obtain ⟨taken, left⟩ := span_breaks all ends
        rw [scanWord, taken, left, whole]
      · rw [← List.cons_append, scanWord_word start dollar all ends, ← whole,
          kindOfWord_name free apart]

theorem scan_address {text : String} (isAddress : IsAddress text.toList)
    (ends : Breaks isNamePart rest) :
    ReadsBack length (.address text) rest := by
  obtain ⟨x, inside, split, sign, all⟩ := isAddress
  have whole : text = String.ofList ('@' :: '0' :: x :: inside) := by
    rw [← split, String.ofList_toList]
  obtain ⟨taken, left⟩ := span_breaks all ends
  refine ⟨'@', '0' :: x :: inside, split, rfl, nofun, ?_⟩
  rw [scanToken_at, List.cons_append, List.cons_append, scanAt, if_pos sign, taken, left, whole]

/-- A word that is no name is scanned as what it stands for. -/
theorem scan_word {k : TokenKind} {word : String} {c : Char} {inside : List Char}
    (spelled : k.spell = word.toList) (split : word.toList = c :: inside)
    (letters : word.toList.all isLetter = true) (kind : kindOfWord word rest = k)
    (ends : Breaks isNamePart rest) : ReadsBack length k rest := by
  rw [split, List.all_eq_true] at letters
  have start : isNameStart c = true := by simp [isNameStart, letters c]
  have plain : c ≠ '$' := by
    rintro rfl
    cases letters '$' (by simp)
  have other : c ≠ ':' := ne_of_isNameStart start (by decide)
  have all : ∀ d ∈ inside, isNamePart d = true := fun d member => by
    simp [isNamePart, letters d (by simp [member])]
  refine ⟨c, inside, spelled.trans split, isBlank_of_isNameStart start,
    fun colon => absurd colon other, ?_⟩
  rw [scanToken_of_isNameStart start, ← List.cons_append, scanWord_word start plain all ends,
    ← split, String.ofList_toList, kind]

theorem scan_mark (sign : Mark) (parted : Parted rest) : ReadsBack length (.mark sign) rest := by
  cases rest with
  | nil =>
    cases sign <;> exact ⟨_, _, rfl, rfl, by decide, rfl⟩
  | cons c rest =>
    obtain rfl := parted c rfl
    cases sign <;> exact ⟨_, _, rfl, rfl, by decide, rfl⟩

theorem kindOfWord_keyword (word : Keyword) : kindOfWord word.display rest = .keyword word := by
  have other : word.display ≠ "global" := by
    cases word <;> decide
  have found : Keyword.ofWord? word.display = some word := by
    cases word <;> rfl
  rw [kindOfWord, if_neg fun global => other global.1, found]

theorem kindOfWord_typeKeyword {type : Primitive} (named : type.keyword?.isSome = true) :
    kindOfWord type.display rest = .typeKeyword type := by
  have other : type.display ≠ "global" := by
    cases type <;> decide
  have free : Keyword.ofWord? type.display = none := by
    cases type <;> rfl
  have found : Primitive.ofKeyword? type.display = some type := by
    cases type <;> first | rfl | cases named
  rw [kindOfWord, if_neg fun global => other global.1, free, found]

theorem kindOfWord_global (colons : beforeColons rest = true) :
    kindOfWord "global" rest = .global :=
  if_pos ⟨rfl, colons⟩

theorem scanToken_digit {c : Char} (digit : c.isDigit = true) :
    scanToken length c rest = scanNumber length (c :: rest) :=
  if_pos digit

theorem scanToken_quote :
    scanToken length '\x22' rest = (do
      let (value, rest) ← scanString length (positionOf length ('\x22' :: rest)) rest
      return (.string (String.ofList value), rest)) :=
  rfl

theorem scanNumber_decimal {c : Char} (next : ∀ x ∈ rest.head?, x ≠ 'x' ∧ x ≠ 'X') :
    scanNumber length (c :: rest) = takeNumber length (positionOf length (c :: rest))
      (decimal? ((c :: rest).takeWhile Char.isDigit)) ((c :: rest).dropWhile Char.isDigit) := by
  unfold scanNumber
  split
  · next x rest same =>
    obtain ⟨-, rfl⟩ := List.cons.inj same
    obtain ⟨small, large⟩ := next x rfl
    rw [if_neg (not_or.mpr ⟨small, large⟩)]
  · rfl

theorem takeNumber_parted (start : Nat) (value : UInt64) (parted : Parted rest) :
    takeNumber length start (some value.toNat) rest = .ok (.integer value, rest) := by
  have sharp : rest.head? ≠ some '#' := fun head => by
    cases parted '#' head
  have part : startsNamePart rest = false := by
    cases rest with
    | nil => rfl
    | cons c rest =>
      obtain rfl := parted c rfl
      rfl
  have same : value.toNat.toUInt64 = value := UInt64.ofNat_toNat
  simp only [takeNumber, if_neg sharp, part, Bool.false_eq_true, if_false, if_pos value.toNat_lt,
    same]

theorem scan_integer (value : UInt64) (parted : Parted rest) :
    ReadsBack length (.integer value) rest := by
  have digits : ∀ d ∈ Nat.toDigits 10 value.toNat, d.isDigit = true := fun d member =>
    Nat.isDigit_of_mem_toDigits (by decide) (by decide) member
  have read := decimal_toDigits value.toNat
  cases written : Nat.toDigits 10 value.toNat with
  | nil => exact absurd written Nat.toDigits_ne_nil
  | cons c inside =>
    rw [written] at digits read
    obtain ⟨taken, left⟩ := span_breaks digits (parted.breaks (by decide))
    have first := toNat_of_isDigit (digits c (by simp))
    refine ⟨c, inside, written, isBlank_of_visible (by omega) (by omega), ?_, ?_⟩
    · rintro rfl
      exact absurd first.2 (by decide)
    · have next : ∀ x ∈ (inside ++ rest).head?, x ≠ 'x' ∧ x ≠ 'X' := by
        intro x head
        cases inside with
        | nil =>
          obtain rfl := parted x head
          decide
        | cons d inside =>
          obtain rfl : d = x := Option.some.inj head
          have digit := digits d (by simp)
          refine ⟨?_, ?_⟩ <;> rintro rfl <;> cases digit
      rw [scanToken_digit (digits c (by simp)), scanNumber_decimal next, ← List.cons_append, taken,
        left, read, takeNumber_parted _ _ parted]

/-- A character is read from its escape. -/
theorem scanString_escape (start : Nat) (c : Char) (tail : List Char) :
    scanString length start (escape c ++ tail) = (do
      let (value, rest) ← scanString length start tail
      return (c :: value, rest)) := by
  unfold escape
  split
  · rfl
  · rfl
  · rfl
  · rfl
  · rfl
  · rfl
  · next quote slash newline _ _ _ =>
    rw [List.singleton_append, scanString.eq_4 _ _ _ _ slash, if_neg newline, if_neg quote]

theorem scanString_spelled (start : Nat) (value : List Char) :
    scanString length start (value.flatMap escape ++ '\x22' :: rest) = .ok (value, rest) := by
  induction value with
  | nil => rfl
  | cons c value ih =>
    rw [List.flatMap_cons, List.append_assoc, scanString_escape, ih]
    rfl

theorem scan_string (value : String) : ReadsBack length (.string value) rest := by
  refine ⟨'\x22', value.toList.flatMap escape ++ ['\x22'], rfl, rfl, nofun, ?_⟩
  rw [scanToken_quote, List.append_assoc, List.singleton_append, scanString_spelled]
  simp [String.ofList_toList]

/-- Every token is scanned from its spelling. -/
theorem readsBack {k : TokenKind} (spellable : k.Spellable) (parted : Parted rest)
    (colons : k = .global → beforeColons rest = true)
    (apart : k = .identifier "global" → beforeColons rest = false) :
    ReadsBack length k rest := by
  have ends : Breaks isNamePart rest := parted.breaks (by decide)
  cases k with
  | identifier name => exact scan_identifier spellable ends fun same => apart (same ▸ rfl)
  | address text => exact scan_address spellable ends
  | global => exact scan_word rfl rfl rfl (kindOfWord_global (colons rfl)) ends
  | keyword word =>
    cases word <;> exact scan_word rfl rfl rfl (kindOfWord_keyword _) ends
  | typeKeyword type =>
    cases type <;>
      first
        | exact scan_word rfl rfl rfl (kindOfWord_typeKeyword rfl) ends
        | cases spellable
  | integer value => exact scan_integer value parted
  | string value => exact scan_string value
  | mark sign => exact scan_mark sign parted

end Scanning

/-- A spelling begins with no blank, and that of a double colon alone with a colon. -/
theorem spell_head {k : TokenKind} (spellable : k.Spellable) :
    ∃ c tail, k.spell = c :: tail ∧ isBlank c = false ∧ (c = ':' → k = .mark .doubleColon) := by
  have reads : ∃ rest, ReadsBack 0 k rest := by
    by_cases isGlobal : k = .global
    · subst isGlobal
      exact ⟨[' ', ':', ':'], readsBack spellable (by rintro c ⟨⟩; rfl) (fun _ => rfl) nofun⟩
    · exact ⟨[], readsBack spellable nofun (fun same => absurd same isGlobal) fun _ => rfl⟩
  obtain ⟨rest, c, tail, split, solid, colon, -⟩ := reads
  exact ⟨c, tail, split, solid, colon⟩

/-- A double colon stands just behind the word `global`, and behind every such word. -/
def phrased (behindGlobal : Bool) : List TokenKind → Bool
  | [] => !behindGlobal
  | k :: rest => (k == .mark .doubleColon) == behindGlobal && phrased (k == .global) rest

theorem phrased_append {behindGlobal : Bool} {first second : List TokenKind}
    (one : phrased behindGlobal first = true) (other : phrased false second = true) :
    phrased behindGlobal (first ++ second) = true := by
  induction first generalizing behindGlobal with
  | nil =>
    obtain rfl : behindGlobal = false := by simpa [phrased] using one
    exact other
  | cons k rest ih =>
    rw [phrased, Bool.and_eq_true] at one
    rw [List.cons_append, phrased, one.1, ih one.2, Bool.and_true]

/-- The tokens with a blank in front of each. -/
def spellMore (kinds : List TokenKind) : List Char :=
  kinds.flatMap fun k => ' ' :: k.spell

theorem spellAll_cons (k : TokenKind) (kinds : List TokenKind) :
    spellAll (k :: kinds) = k.spell ++ spellMore kinds := by
  rw [spellAll, List.map_cons, intercalate_singleton, List.flatMap_map]
  rfl

theorem parted_spellMore (kinds : List TokenKind) : Parted (spellMore kinds) := by
  cases kinds with
  | nil => exact nofun
  | cons k kinds =>
    rintro c ⟨⟩
    rfl

/-- Blanks in front of a spelling are dropped, and no more. -/
theorem dropBlanks_spellAll {kinds : List TokenKind} (spellable : ∀ k ∈ kinds, k.Spellable) :
    dropBlanks (spellAll kinds) = spellAll kinds := by
  cases kinds with
  | nil => rfl
  | cons k kinds =>
    obtain ⟨c, tail, split, solid, -⟩ := spell_head (spellable k (by simp))
    rw [spellAll_cons, split, List.cons_append, dropBlanks,
      List.dropWhile_cons_of_neg (by simp [solid])]

theorem dropBlanks_spellMore {kinds : List TokenKind} (spellable : ∀ k ∈ kinds, k.Spellable) :
    dropBlanks (spellMore kinds) = spellAll kinds := by
  rw [← dropBlanks_spellAll spellable]
  cases kinds with
  | nil => rfl
  | cons k kinds =>
    rw [spellAll_cons]
    rfl

theorem beforeColons_spellMore {kinds : List TokenKind} (spellable : ∀ k ∈ kinds, k.Spellable)
    {behindGlobal : Bool} (isPhrased : phrased behindGlobal kinds = true) :
    beforeColons (spellMore kinds) = behindGlobal := by
  rw [beforeColons, dropBlanks_spellMore spellable]
  cases kinds with
  | nil =>
    obtain rfl : behindGlobal = false := by simpa [phrased] using isPhrased
    rfl
  | cons k kinds =>
    rw [phrased, Bool.and_eq_true, beq_iff_eq] at isPhrased
    rw [spellAll_cons, ← isPhrased.1]
    by_cases colons : k = .mark .doubleColon
    · subst colons
      rfl
    · obtain ⟨c, tail, split, -, colon⟩ := spell_head (spellable k (by simp))
      have other : c ≠ ':' := fun same => colons (colon same)
      rw [split, List.cons_append, beq_eq_false_iff_ne.mpr colons]
      simp [List.isPrefixOf, other.symm]

/-- One step of a scan, from the tokens so far and the input that is left. -/
def scanStep (length : Nat) (tokens : List Token) (input : List Char) :
    Except Error (Option (List Token × List Char)) :=
  match dropBlanks input with
  | [] => .ok none
  | c :: rest => do
    let (kind, left) ← scanToken length c rest
    return some (⟨kind, positionOf length (c :: rest)⟩ :: tokens, left)

theorem scan_eq (text : String) : scan text = (do
    let (tokens, _) ← iterate (scanStep text.toList.length) [] text.toList
    return ⟨tokens.reverse, text.toList.length⟩) :=
  rfl

/-- Spelled tokens are scanned to their end. -/
theorem iterate_scanStep {length : Nat} {kinds : List TokenKind}
    (spellable : ∀ k ∈ kinds, k.Spellable) {behindGlobal : Bool}
    (isPhrased : phrased behindGlobal kinds = true) {input : List Char}
    (spelled : dropBlanks input = spellAll kinds) (tokens : List Token) :
    ∃ tokens' left, iterate (scanStep length) tokens input = .ok (tokens', left) ∧
      tokens'.map (·.kind) = kinds.reverse ++ tokens.map (·.kind) := by
  induction kinds generalizing input behindGlobal tokens with
  | nil =>
    refine ⟨tokens, input, iterate_eq_ok ?_, rfl⟩
    rw [scanStep, spelled]
    rfl
  | cons k kinds ih =>
    have later : ∀ l ∈ kinds, l.Spellable := fun l member => spellable l (by simp [member])
    rw [phrased, Bool.and_eq_true] at isPhrased
    have colons := beforeColons_spellMore later isPhrased.2
    have reads : ReadsBack length k (spellMore kinds) :=
      readsBack (spellable k (by simp)) (parted_spellMore kinds) (by rintro rfl; exact colons)
        (by rintro rfl; exact colons)
    obtain ⟨c, tail, split, -, -, scanned⟩ := reads
    rw [spellAll_cons, split, List.cons_append] at spelled
    have step : scanStep length tokens input = .ok (some
        (⟨k, positionOf length (c :: (tail ++ spellMore kinds))⟩ :: tokens, spellMore kinds)) := by
      rw [scanStep, spelled]
      simp only [scanned]
      rfl
    have shorter : (spellMore kinds).length < input.length := by
      have dropped := dropBlanks_length_le input
      rw [spelled, List.length_cons, List.length_append] at dropped
      omega
    obtain ⟨tokens', left, read, same⟩ :=
      ih later isPhrased.2 (dropBlanks_spellMore later)
        (⟨k, positionOf length (c :: (tail ++ spellMore kinds))⟩ :: tokens)
    refine ⟨tokens', left, (iterate_step step shorter).trans read, ?_⟩
    rw [same, List.map_cons, List.reverse_cons, List.append_assoc, List.singleton_append]

/-- Spelled tokens are scanned back, if every double colon stands where it may. -/
theorem scan_spellAll {kinds : List TokenKind} (spellable : ∀ k ∈ kinds, k.Spellable)
    (isPhrased : phrased false kinds = true) :
    ∃ scanned, scan (String.ofList (spellAll kinds)) = .ok scanned ∧
      scanned.tokens.map (·.kind) = kinds := by
  obtain ⟨tokens, left, read, same⟩ : ∃ tokens left,
      iterate (scanStep (spellAll kinds).length) [] (spellAll kinds) = .ok (tokens, left) ∧
        tokens.map (·.kind) = kinds.reverse ++ [] :=
    iterate_scanStep spellable isPhrased (dropBlanks_spellAll spellable) []
  refine ⟨⟨tokens.reverse, (spellAll kinds).length⟩, ?_, ?_⟩
  · rw [scan_eq, String.toList_ofList, read]
    rfl
  · rw [List.map_reverse, same, List.append_nil, List.reverse_reverse]

/-- Tokens that are scanned back from their spelling, with any of their kind behind them. -/
structure Scannable (kinds : List TokenKind) : Prop where
  spellable : ∀ k ∈ kinds, k.Spellable
  isPhrased : phrased false kinds = true

namespace Scannable
variable {first second : List TokenKind} {k : TokenKind}

theorem nil : Scannable [] :=
  ⟨nofun, rfl⟩

theorem single (spellable : k.Spellable) (free : k ≠ .global ∧ k ≠ .mark .doubleColon) :
    Scannable [k] := by
  refine ⟨by simpa using spellable, ?_⟩
  simp [phrased, free.1, free.2]

theorem global : Scannable [.global, .mark .doubleColon] :=
  ⟨by simp [TokenKind.Spellable], rfl⟩

theorem mark {sign : Mark} (other : sign ≠ .doubleColon) : Scannable [.mark sign] :=
  single trivial ⟨nofun, fun same => other (TokenKind.mark.inj same)⟩

theorem append (one : Scannable first) (other : Scannable second) : Scannable (first ++ second) :=
  ⟨List.forall_mem_append.mpr ⟨one.spellable, other.spellable⟩,
    phrased_append one.isPhrased other.isPhrased⟩

theorem cons (one : Scannable [k]) (more : Scannable second) : Scannable (k :: second) :=
  append one more

theorem intercalate {sign : Mark} (other : sign ≠ .doubleColon) {items : List (List TokenKind)}
    (each : ∀ item ∈ items, Scannable item) : Scannable ([.mark sign].intercalate items) :=
  intercalate_induction nil (fun _ _ => append) (mark other) each

end Scannable

section Scanned
variable {length : Nat} {rest left : List Char} {k : TokenKind}

theorem takeWhile_isNamePart : ∀ d ∈ rest.takeWhile isNamePart, isNamePart d = true :=
  fun _ => List.mem_takeWhile_imp

/-- A number that was taken is an integer. -/
theorem spellable_of_takeNumber {start : Nat} {value : Option Nat}
    (taken : takeNumber length start value rest = .ok (k, left)) : k.Spellable := by
  unfold takeNumber at taken
  split at taken
  · cases taken
  · split at taken
    · cases taken
    · split at taken
      · split at taken
        · cases taken
          trivial
        · cases taken
      · cases taken

theorem spellable_of_scanNumber (scanned : scanNumber length rest = .ok (k, left)) :
    k.Spellable := by
  unfold scanNumber at scanned
  split at scanned
  · split at scanned <;> exact spellable_of_takeNumber scanned
  · exact spellable_of_takeNumber scanned

theorem spellable_of_scanAt (scanned : scanAt length rest = .ok (k, left)) : k.Spellable := by
  have name : (if rest.head?.any fun c => isLetter c || c == '_' then
      .ok (.identifier (String.ofList (rest.takeWhile isNamePart)), rest.dropWhile isNamePart)
    else .error (.badSyntax (positionOf length rest - 1) "unexpected character '@'")) =
      Except.ok (ε := Error) (k, left) → k.Spellable := by
    intro named
    split at named
    · next start =>
      cases rest with
      | nil => cases start
      | cons c tail =>
        have start : (isLetter c || c == '_') = true := start
        have part : isNamePart c = true := by
          rw [Bool.or_eq_true] at start
          rcases start with letter | low <;> simp [isNamePart, *]
        cases named
        refine ⟨c, tail.takeWhile isNamePart, ?_, ?_, takeWhile_isNamePart⟩
        · rw [String.toList_ofList, List.takeWhile_cons_of_pos part]
        · rw [isNameStart, start, Bool.true_or]
    · cases named
  by_cases shape : ∃ x digits, rest = '0' :: x :: digits
  · obtain ⟨x, digits, rfl⟩ := shape
    by_cases sign : x = 'x' ∨ x = 'X'
    · rw [scanAt, if_pos sign] at scanned
      cases scanned
      exact ⟨x, digits.takeWhile isNamePart, String.toList_ofList, sign, takeWhile_isNamePart⟩
    · rw [scanAt, if_neg sign] at scanned
      exact name scanned
  · rw [scanAt.eq_2 _ _ fun x digits same => shape ⟨x, digits, same⟩] at scanned
    exact name scanned

theorem spellable_kindOfWord {word : String} (isName : IsName word.toList) :
    (kindOfWord word rest).Spellable := by
  unfold kindOfWord
  split
  · trivial
  · split
    · trivial
    · split
      · next found =>
        have same := List.find?_some found
        rw [beq_iff_eq] at same
        exact Option.isSome_of_eq_some same
      · exact isName

theorem spellable_of_scanWord {c : Char} (start : isNameStart c = true)
    (scanned : scanWord (c :: rest) = (k, left)) : k.Spellable := by
  by_cases dollar : c = '$'
  · subst dollar
    cases scanned
    exact ⟨'$', rest.takeWhile isNamePart, String.toList_ofList, rfl, takeWhile_isNamePart⟩
  · rw [scanWord.eq_2 _ (by simpa using dollar)] at scanned
    have part : isNamePart c = true := by
      obtain rfl | rfl | letter := isNameStart_cases start
      · exact absurd rfl dollar
      · rfl
      · simp [isNamePart, letter]
    cases scanned
    refine spellable_kindOfWord ⟨c, rest.takeWhile isNamePart, ?_, start, takeWhile_isNamePart⟩
    rw [String.toList_ofList, List.takeWhile_cons_of_pos part]

/-- Whatever is scanned has a spelling. -/
theorem spellable_of_scanToken {c : Char} (scanned : scanToken length c rest = .ok (k, left)) :
    k.Spellable := by
  unfold scanToken at scanned
  split at scanned
  · exact spellable_of_scanNumber scanned
  split at scanned
  · simp only [bind_eq_ok, pure_eq_ok, Prod.mk.injEq] at scanned
    obtain ⟨_, -, rfl, -⟩ := scanned
    trivial
  split at scanned
  · exact spellable_of_scanAt scanned
  split at scanned
  · next start =>
    exact spellable_of_scanWord start (Except.ok.inj scanned)
  split at scanned
  · cases scanned
    trivial
  · cases scanned

theorem spellable_of_scan {text : String} {scanned : Scanned} (read : scan text = .ok scanned) :
    ∀ token ∈ scanned.tokens, token.kind.Spellable := by
  simp only [scan_eq, bind_eq_ok, pure_eq_ok] at read
  obtain ⟨⟨tokens, input⟩, read, rfl⟩ := read
  have all := iterate_keeps (P := fun tokens : List Token => ∀ t ∈ tokens, t.kind.Spellable)
    (fun tokens input next rest step all => ?_) read (by simp)
  · simpa using all
  · unfold scanStep at step
    split at step
    · cases step
    · simp only [bind_eq_ok, pure_eq_ok, Option.some.injEq, Prod.mk.injEq] at step
      obtain ⟨⟨k, left⟩, one, rfl, -⟩ := step
      exact List.forall_mem_cons.mpr ⟨spellable_of_scanToken one, all⟩

/-- The text is scanned as this one token. -/
def Lexes (text : String) (k : TokenKind) : Prop :=
  ∃ scanned, scan text = .ok scanned ∧ scanned.tokens.map (·.kind) = [k]

theorem Lexes.spellable {text : String} (lexes : Lexes text k) : k.Spellable := by
  obtain ⟨scanned, read, same⟩ := lexes
  obtain ⟨token, member, rfl⟩ := List.mem_map.mp (same ▸ List.mem_singleton_self k)
  exact spellable_of_scan read token member

/-- A token that stands alone is scanned from its spelling. -/
theorem lexes_spell (spellable : k.Spellable) (free : k ≠ .global ∧ k ≠ .mark .doubleColon) :
    Lexes (String.ofList (spellAll [k])) k := by
  have alone := Scannable.single spellable free
  exact scan_spellAll alone.spellable alone.isPhrased

end Scanned

end DebugExpr.Source
