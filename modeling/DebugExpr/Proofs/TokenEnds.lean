import DebugExpr.Proofs.TokenSpelling

/-! Ends of tokens. A token takes the characters in front of what it leaves, and of those it sees no
more than the first, except that the word `global` looks for a double colon. So it is taken again in
front of any other rest that begins alike, and in front of every rest that begins with a blank. -/
namespace DebugExpr.Source
open Text Metadata Parsing

/-- The input is over or goes on with a blank. -/
def Ended (rest : List Char) : Prop :=
  ∀ c ∈ rest.head?, isBlank c = true

/-- A token that leaves the first rest ends in front of the second too. -/
def EndsAlike (left tail : List Char) : Prop :=
  tail.head? = left.head? ∨ Ended tail

section Characters
variable {c : Char} {rest left tail : List Char}

theorem isBlank_of_isNumeral (numeral : isNumeral c = true) : isBlank c = false := by
  unfold isNumeral at numeral
  split at numeral
  · have bounds := toNat_of_isDigit numeral
    exact isBlank_of_visible (by omega) (by omega)
  · exact Ranges.disjoint_of_apart (by decide +kernel) numeral

theorem isBlank_of_isNamePart (part : isNamePart c = true) : isBlank c = false := by
  simp only [isNamePart, Bool.or_eq_true, beq_iff_eq] at part
  obtain (letter | numeral) | rfl := part
  · exact isBlank_of_isLetter letter
  · exact isBlank_of_isNumeral numeral
  · rfl

theorem isBlank_of_isDigit (digit : c.isDigit = true) : isBlank c = false := by
  have bounds := toNat_of_isDigit digit
  exact isBlank_of_visible (by omega) (by omega)

theorem isBlank_of_isHexDigit (digit : isHexDigit c = true) : isBlank c = false := by
  unfold isHexDigit hexValue? at digit
  split at digit
  · next decimal => exact isBlank_of_isDigit decimal
  · split at digit
    · next small =>
      obtain ⟨least, greatest⟩ : 97 ≤ c.toNat ∧ c.toNat ≤ 102 := small
      exact isBlank_of_visible (by omega) (by omega)
    · split at digit
      · next large =>
        obtain ⟨least, greatest⟩ : 65 ≤ c.toNat ∧ c.toNat ≤ 70 := large
        exact isBlank_of_visible (by omega) (by omega)
      · cases digit

/-- A visible character at the front of one rest is at the front of the other. -/
theorem EndsAlike.head (ends : EndsAlike left tail) (solid : isBlank c = false)
    (head : tail.head? = some c) : left.head? = some c := by
  obtain same | ended := ends
  · rw [← same, head]
  · have blank := ended c head
    rw [solid] at blank
    cases blank

theorem EndsAlike.apart (ends : EndsAlike left tail) (solid : isBlank c = false)
    (other : ∀ more, left = c :: more → False) : ∀ more, tail = c :: more → False := by
  intro more split
  obtain ⟨more, rfl⟩ := List.head?_eq_some_iff.mp (ends.head solid (by rw [split]; rfl))
  exact other more rfl

/-- What a class takes from an input it takes again. -/
theorem EndsAlike.span {p : Char → Bool} (solid : ∀ c, p c = true → isBlank c = false)
    (ends : EndsAlike (rest.dropWhile p) tail) :
    (rest.takeWhile p ++ tail).takeWhile p = rest.takeWhile p ∧
      (rest.takeWhile p ++ tail).dropWhile p = tail := by
  refine span_breaks (fun _ => List.mem_takeWhile_imp) fun c head => ?_
  rw [Bool.eq_false_iff]
  intro inside
  have outside := List.head?_dropWhile_not p rest
  rw [ends.head (solid c inside) head] at outside
  exact absurd inside (by simpa using outside)

end Characters

/-- The input begins as a hexadecimal number. -/
def Hexed (input : List Char) : Prop :=
  ∃ x rest, input = '0' :: x :: rest ∧ (x = 'x' ∨ x = 'X')

/-- Digits that are no hexadecimal number do not become one by what follows. -/
theorem Hexed.of_digits {c : Char} {rest tail : List Char}
    (ends : EndsAlike (rest.dropWhile Char.isDigit) tail)
    (hexed : Hexed (c :: (rest.takeWhile Char.isDigit ++ tail))) : Hexed (c :: rest) := by
  obtain ⟨x, more, whole, sign⟩ := hexed
  obtain ⟨rfl, split⟩ := List.cons.inj whole
  have visible : isBlank x = false := by rcases sign with rfl | rfl <;> decide
  have other : ¬ x.isDigit = true := by rcases sign with rfl | rfl <;> decide
  -- the second character is no digit, so it stands in what is left
  cases rest with
  | nil => exact nomatch ends.head visible (congrArg List.head? split)
  | cons d rest =>
    by_cases isDigit : d.isDigit = true
    · rw [List.takeWhile_cons_of_pos isDigit] at split
      obtain ⟨rfl, -⟩ := List.cons.inj split
      exact absurd isDigit other
    · rw [List.takeWhile_cons_of_neg isDigit] at split
      rw [List.dropWhile_cons_of_neg isDigit] at ends
      obtain rfl := Option.some.inj (ends.head visible (congrArg List.head? split))
      exact ⟨d, rest, rfl, sign⟩

section Tokens
variable {length start : Nat} {rest left : List Char} {k : TokenKind}

theorem takeNumber_ends {value : Option Nat}
    (taken : takeNumber length start value rest = .ok (k, left)) :
    left = rest ∧ ∀ length start tail, EndsAlike rest tail →
      takeNumber length start value tail = .ok (k, tail) := by
  unfold takeNumber at taken ⊢
  split at taken
  · cases taken
  next plain =>
  split at taken
  · cases taken
  next stops =>
  split at taken
  · next n =>
    split at taken
    · next small =>
      cases taken
      refine ⟨rfl, fun length start tail ends => ?_⟩
      have sharp : ¬ tail.head? = some '#' := fun head => plain (ends.head rfl head)
      have part : ¬ startsNamePart tail = true := by
        cases tail with
        | nil => nofun
        | cons c tail =>
          intro part
          have head := ends.head (isBlank_of_isNamePart part) rfl
          exact stops (by rw [startsNamePart, head]; exact part)
      simp only [if_neg sharp, if_neg part, if_pos small]
    · cases taken
  · cases taken

theorem scanNumber_plain (plain : ¬ Hexed rest) : scanNumber length rest =
    takeNumber length (positionOf length rest) (decimal? (rest.takeWhile Char.isDigit))
      (rest.dropWhile Char.isDigit) := by
  unfold scanNumber
  split
  · next x inside => exact if_neg fun sign => plain ⟨x, inside, rfl, sign⟩
  · rfl

theorem scanNumber_ends {c : Char} (digit : c.isDigit = true)
    (scanned : scanNumber length (c :: rest) = .ok (k, left)) :
    ∃ inside, rest = inside ++ left ∧ ∀ length tail, EndsAlike left tail →
      scanNumber length (c :: (inside ++ tail)) = .ok (k, tail) := by
  by_cases hexed : Hexed (c :: rest)
  · obtain ⟨x, digits, same, sign⟩ := hexed
    obtain ⟨rfl, rfl⟩ := List.cons.inj same
    rw [scanNumber, if_pos sign] at scanned
    obtain ⟨rfl, again⟩ := takeNumber_ends scanned
    refine ⟨x :: digits.takeWhile isHexDigit, by simp, fun length tail ends => ?_⟩
    obtain ⟨taken, left⟩ := ends.span fun _ => isBlank_of_isHexDigit
    rw [List.cons_append, scanNumber, if_pos sign, taken, left]
    exact again _ _ _ ends
  · rw [scanNumber_plain hexed, List.takeWhile_cons_of_pos digit,
      List.dropWhile_cons_of_pos digit] at scanned
    obtain ⟨rfl, again⟩ := takeNumber_ends scanned
    refine ⟨rest.takeWhile Char.isDigit, by simp, fun length tail ends => ?_⟩
    obtain ⟨taken, left⟩ := ends.span fun _ => isBlank_of_isDigit
    rw [scanNumber_plain (fun again => hexed (again.of_digits ends)),
      List.takeWhile_cons_of_pos digit, List.dropWhile_cons_of_pos digit, taken, left]
    exact again _ _ _ ends

theorem scanString_ends {value : List Char}
    (scanned : scanString length start rest = .ok (value, left)) :
    ∃ inside, rest = inside ++ left ∧ ∀ length start tail,
      scanString length start (inside ++ tail) = .ok (value, tail) := by
  fun_induction scanString length start rest generalizing value with
  | case1 | case2 | case3 | case5 => exact nomatch scanned
  | case6 =>
    cases scanned
    exact ⟨['\x22'], rfl, fun _ _ _ => rfl⟩
  | case4 c rest value' escape ih =>
    simp only [bind_eq_ok, pure_eq_ok, Prod.mk.injEq] at scanned
    obtain ⟨⟨inner, behind⟩, one, rfl, rfl⟩ := scanned
    obtain ⟨inside, rfl, again⟩ := ih one
    refine ⟨'\\' :: c :: inside, rfl, fun length start tail => ?_⟩
    rw [List.cons_append, List.cons_append, scanString]
    simp only [escape, again]
    rfl
  | case7 c rest plain line unquoted ih =>
    simp only [bind_eq_ok, pure_eq_ok, Prod.mk.injEq] at scanned
    obtain ⟨⟨inner, behind⟩, one, rfl, rfl⟩ := scanned
    obtain ⟨inside, rfl, again⟩ := ih one
    refine ⟨c :: inside, rfl, fun length start tail => ?_⟩
    rw [List.cons_append, scanString.eq_4 _ _ _ _ plain, if_neg line, if_neg unquoted, again]
    rfl

theorem scanAt_plain (plain : ¬ Hexed rest) : scanAt length rest =
    if rest.head?.any fun c => isLetter c || c == '_' then
      .ok (.identifier (String.ofList (rest.takeWhile isNamePart)), rest.dropWhile isNamePart)
    else .error (.badSyntax (positionOf length rest - 1) "unexpected character '@'") := by
  by_cases shape : ∃ x digits, rest = '0' :: x :: digits
  · obtain ⟨x, digits, rfl⟩ := shape
    rw [scanAt, if_neg fun sign => plain ⟨x, digits, rfl, sign⟩]
  · exact scanAt.eq_2 _ _ fun x digits same => shape ⟨x, digits, same⟩

theorem scanAt_ends (scanned : scanAt length rest = .ok (k, left)) :
    ∃ inside, rest = inside ++ left ∧ ∀ length tail, EndsAlike left tail →
      scanAt length (inside ++ tail) = .ok (k, tail) := by
  by_cases hexed : Hexed rest
  · obtain ⟨x, digits, rfl, sign⟩ := hexed
    rw [scanAt, if_pos sign] at scanned
    cases scanned
    refine ⟨'0' :: x :: digits.takeWhile isNamePart, by simp, fun length tail ends => ?_⟩
    obtain ⟨taken, behind⟩ := ends.span fun _ => isBlank_of_isNamePart
    rw [List.cons_append, List.cons_append, scanAt, if_pos sign, taken, behind]
  · rw [scanAt_plain hexed] at scanned
    split at scanned
    · next letter =>
      cases scanned
      refine ⟨rest.takeWhile isNamePart, by simp, fun length tail ends => ?_⟩
      obtain ⟨taken, behind⟩ := ends.span fun _ => isBlank_of_isNamePart
      cases rest with
      | nil => cases letter
      | cons c rest =>
        have letter : (isLetter c || c == '_') = true := letter
        have part : isNamePart c = true := by
          simp only [isNamePart, Bool.or_eq_true] at letter ⊢
          exact letter.imp_left .inl
        rw [List.takeWhile_cons_of_pos part] at taken behind ⊢
        have plain : ¬ Hexed (c :: rest.takeWhile isNamePart ++ tail) := by
          rintro ⟨x, more, same, -⟩
          obtain ⟨rfl, -⟩ := List.cons.inj same
          exact absurd letter (by decide)
        rw [scanAt_plain plain, taken, behind]
        exact if_pos letter
    · cases scanned

theorem scanWord_ends {c : Char} (start : isNameStart c = true)
    (scanned : scanWord (c :: rest) = (k, left)) :
    ∃ inside, rest = inside ++ left ∧ ∀ tail, EndsAlike left tail →
      beforeColons tail = beforeColons left → scanWord (c :: (inside ++ tail)) = (k, tail) := by
  refine ⟨rest.takeWhile isNamePart, ?_⟩
  by_cases dollar : c = '$'
  · subst dollar
    cases scanned
    refine ⟨by simp, fun tail ends _ => ?_⟩
    obtain ⟨taken, behind⟩ := ends.span fun _ => isBlank_of_isNamePart
    rw [scanWord, taken, behind]
  · have part : isNamePart c = true := by
      obtain rfl | rfl | letter := isNameStart_cases start
      · exact absurd rfl dollar
      · rfl
      · simp [isNamePart, letter]
    rw [scanWord.eq_2 _ (by simpa using dollar)] at scanned
    simp only [List.takeWhile_cons_of_pos part, List.dropWhile_cons_of_pos part] at scanned
    cases scanned
    refine ⟨by simp, fun tail ends colons => ?_⟩
    obtain ⟨taken, behind⟩ := ends.span fun _ => isBlank_of_isNamePart
    rw [scanWord.eq_2 _ (by simpa using dollar)]
    simp only [List.takeWhile_cons_of_pos part, List.dropWhile_cons_of_pos part, taken, behind]
    rw [kindOfWord, kindOfWord, ← beforeColons, ← beforeColons, colons]

theorem scanMark_ends {input : List Char} {sign : Mark}
    (scanned : scanMark input = some (sign, left)) :
    ∃ c inside, input = c :: (inside ++ left) ∧ ∀ tail, EndsAlike left tail →
      scanMark (c :: (inside ++ tail)) = some (sign, tail) := by
  unfold scanMark at scanned
  split at scanned <;> cases scanned
  case h_1 | h_2 | h_3 | h_4 | h_5 | h_6 => exact ⟨_, [_], rfl, fun _ _ => rfl⟩
  case h_13 other => exact ⟨_, [], rfl, fun _ ends => scanMark.eq_13 _ (ends.apart rfl other)⟩
  case h_15 other => exact ⟨_, [], rfl, fun _ ends => scanMark.eq_15 _ (ends.apart rfl other)⟩
  case h_16 other => exact ⟨_, [], rfl, fun _ ends => scanMark.eq_16 _ (ends.apart rfl other)⟩
  case h_17 other => exact ⟨_, [], rfl, fun _ ends => scanMark.eq_17 _ (ends.apart rfl other)⟩
  case h_18 other => exact ⟨_, [], rfl, fun _ ends => scanMark.eq_18 _ (ends.apart rfl other)⟩
  all_goals exact ⟨_, [], rfl, fun _ _ => rfl⟩

/-- A token takes the characters in front of what it leaves, and takes them again in front of a rest
where it ends alike, if a double colon comes next in both rests or in none. -/
theorem scanToken_ends {c : Char} (scanned : scanToken length c rest = .ok (k, left)) :
    ∃ inside, rest = inside ++ left ∧ ∀ length tail, EndsAlike left tail →
      beforeColons tail = beforeColons left →
      scanToken length c (inside ++ tail) = .ok (k, tail) := by
  unfold scanToken at scanned ⊢
  split at scanned
  · next digit =>
    obtain ⟨inside, split, again⟩ := scanNumber_ends digit scanned
    exact ⟨inside, split, fun length tail ends _ => by rw [if_pos digit, again _ _ ends]⟩
  next digit =>
  simp only [if_neg digit]
  split at scanned
  · next quote =>
    simp only [bind_eq_ok, pure_eq_ok, Prod.mk.injEq] at scanned
    obtain ⟨⟨value, behind⟩, one, rfl, rfl⟩ := scanned
    obtain ⟨inside, split, again⟩ := scanString_ends one
    refine ⟨inside, split, fun length tail _ _ => ?_⟩
    rw [if_pos quote, again]
    rfl
  next quote =>
  simp only [if_neg quote]
  split at scanned
  · next sign =>
    obtain ⟨inside, split, again⟩ := scanAt_ends scanned
    exact ⟨inside, split, fun length tail ends _ => by rw [if_pos sign, again _ _ ends]⟩
  next sign =>
  simp only [if_neg sign]
  split at scanned
  · next start =>
    obtain ⟨inside, split, again⟩ := scanWord_ends start (Except.ok.inj scanned)
    exact ⟨inside, split, fun length tail ends colons => by
      rw [if_pos start, again _ ends colons]⟩
  next start =>
  simp only [if_neg start]
  split at scanned
  · next mark behind found =>
    obtain ⟨rfl, rfl⟩ := Prod.mk.inj (Except.ok.inj scanned)
    obtain ⟨c', inside, same, again⟩ := scanMark_ends found
    obtain ⟨rfl, split⟩ := List.cons.inj same
    exact ⟨inside, split, fun length tail ends _ => by rw [again _ ends]⟩
  · cases scanned

/-- A colon begins no token but a double colon. -/
theorem scanToken_colon (scanned : scanToken length ':' rest = .ok (k, left)) :
    rest = ':' :: left := by
  by_cases second : ∃ more, rest = ':' :: more
  · obtain ⟨more, rfl⟩ := second
    cases scanned
    rfl
  · have none : scanMark (':' :: rest) = none := by
      unfold scanMark
      split <;> first | rfl | simp_all
    have refused : scanToken length ':' rest =
        .error (.badSyntax (positionOf length (':' :: rest)) "unexpected character ':'") := by
      have plain : ':'.isDigit = false ∧ isNameStart ':' = false := by decide
      simp only [scanToken, plain, none, Bool.false_eq_true, if_false]
      rfl
    rw [refused] at scanned
    cases scanned

end Tokens

end DebugExpr.Source
