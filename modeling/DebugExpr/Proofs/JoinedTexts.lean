import DebugExpr.Proofs.DisplayScanning
import DebugExpr.Proofs.TokenEnds

/-! Texts that are scanned one after the other. Behind a text a blank and a mark that is no colon
change none of its tokens, so that the tokens of the joined text are those of its parts. -/
namespace DebugExpr.Source
open Text Metadata Parsing

/-- What stands behind a text ends its last token, and does not make a word out of the last one that
is not one before. -/
structure Apart (tail : List Char) : Prop where
  parted : Parted tail
  colonless : beforeColons tail = false

section Apart
variable {length : Nat} {tail rest left : List Char} {k : TokenKind}

theorem Apart.beforeColons_append (apart : Apart tail) (cs : List Char) :
    beforeColons (cs ++ tail) = beforeColons cs := by
  rw [beforeColons, beforeColons, dropBlanks, dropBlanks, List.dropWhile_append]
  cases front : cs.dropWhile isBlank with
  | nil => exact apart.colonless
  | cons c rest =>
    cases rest with
    | cons d rest => simp [List.isPrefixOf]
    | nil =>
      cases tail with
      | nil => rfl
      | cons d tail =>
        obtain rfl := apart.parted d rfl
        simp [List.isPrefixOf]

theorem Apart.endsAlike (apart : Apart tail) (left : List Char) : EndsAlike left (left ++ tail) := by
  cases left with
  | nil => exact .inr fun c head => apart.parted c head ▸ rfl
  | cons c left => exact .inl rfl

/-- A token that is scanned in a text is scanned in the longer text, and takes the same characters.
-/
theorem scanToken_append (apart : Apart tail) {c : Char}
    (scanned : scanToken length c rest = .ok (k, left)) :
    left.length ≤ rest.length ∧
      ∀ length, scanToken length c (rest ++ tail) = .ok (k, left ++ tail) := by
  obtain ⟨inside, rfl, again⟩ := scanToken_ends scanned
  refine ⟨by simp, fun length => ?_⟩
  rw [List.append_assoc]
  exact again _ _ (apart.endsAlike left) (apart.beforeColons_append left)

end Apart

theorem scanStep_eq_ok {length : Nat} {input rest : List Char} {tokens next : List Token}
    (taken : scanStep length tokens input = .ok (some (next, rest))) :
    ∃ c inside k, dropBlanks input = c :: inside ∧ scanToken length c inside = .ok (k, rest) ∧
      next = ⟨k, positionOf length (c :: inside)⟩ :: tokens := by
  unfold scanStep at taken
  split at taken
  · cases taken
  · next c inside front =>
    simp only [bind_eq_ok, pure_eq_ok, Option.some.injEq, Prod.mk.injEq] at taken
    obtain ⟨⟨k, left⟩, token, rfl, rfl⟩ := taken
    exact ⟨c, inside, k, front, token, rfl⟩

/-- The tokens of a text come first when another text follows. -/
theorem scansAs_append {length : Nat} {input left tail : List Char} {tokens result : List Token}
    {kinds : List TokenKind} (apart : Apart tail) (scans : ScansAs tail kinds)
    (read : iterate (scanStep length) tokens input = .ok (result, left)) :
    ∃ own, result.map (·.kind) = own.reverse ++ tokens.map (·.kind) ∧
      ScansAs (input ++ tail) (own ++ kinds) := by
  fun_induction iterate (scanStep length) tokens input with
  | case1 => cases read
  | case2 tokens input ends =>
    have blank : dropBlanks input = [] := by
      unfold scanStep at ends
      split at ends
      · assumption
      · simp at ends
    cases read
    refine ⟨[], rfl, fun length tokens behind same => scans length tokens behind ?_⟩
    rw [same, dropBlanks, List.dropWhile_append, ← dropBlanks, blank]
    rfl
  | case3 tokens input next rest taken shorter ih =>
    obtain ⟨c, inside, k, front, token, rfl⟩ := scanStep_eq_ok taken
    obtain ⟨less, again⟩ := scanToken_append apart token
    obtain ⟨own, kept, scanned⟩ := ih read
    refine ⟨k :: own, by simp [kept], scanned.token (c := c) ?_ ?_ again⟩
    · rw [dropBlanks, List.dropWhile_append, ← dropBlanks, front]
      rfl
    · simpa using less
  | case4 tokens input next rest taken longer =>
    obtain ⟨c, inside, k, front, token, rfl⟩ := scanStep_eq_ok taken
    obtain ⟨less, -⟩ := scanToken_append apart token
    have dropped := dropBlanks_length_le input
    rw [front, List.length_cons] at dropped
    omega

/-- A text is scanned as its tokens, with another text behind it or none. -/
theorem scansAs_of_scan {text : String} {scanned : Scanned} (read : scan text = .ok scanned)
    {tail : List Char} {kinds : List TokenKind} (apart : Apart tail) (scans : ScansAs tail kinds) :
    ScansAs (text.toList ++ tail) (scanned.tokens.map (·.kind) ++ kinds) := by
  simp only [scan_eq, bind_eq_ok, pure_eq_ok] at read
  obtain ⟨⟨tokens, left⟩, read, rfl⟩ := read
  obtain ⟨own, kept, joined⟩ := scansAs_append apart scans read
  rw [List.map_nil, List.append_nil] at kept
  rwa [List.map_reverse, kept, List.reverse_reverse]

/-- The tokens of two texts with an equals sign between them. -/
theorem scan_joined {target source : String} {scanned scanned' : Scanned}
    (read : scan target = .ok scanned) (read' : scan source = .ok scanned') :
    ∃ joined, scan (target ++ " = " ++ source) = .ok joined ∧
      joined.tokens.map (·.kind) = scanned.tokens.map (·.kind) ++
        .mark .assign :: scanned'.tokens.map (·.kind) := by
  have second : ScansAs source.toList (scanned'.tokens.map (·.kind)) := by
    have alone := scansAs_of_scan read' ⟨by simp [Parted], rfl⟩ scansAs_nil
    rwa [List.append_nil, List.append_nil] at alone
  have sign : ScansAs ('=' :: ' ' :: source.toList)
      (.mark .assign :: scanned'.tokens.map (·.kind)) :=
    second.blank.token rfl (Nat.le_refl _) fun _ => rfl
  have apart : Apart (' ' :: '=' :: ' ' :: source.toList) :=
    ⟨by rintro _ ⟨⟩; rfl, rfl⟩
  have joined := scansAs_of_scan read apart sign.blank
  refine scan_of_scansAs ?_
  have between : " = ".toList = [' ', '=', ' '] := rfl
  rwa [String.toList_append, String.toList_append, between, List.append_assoc]

end DebugExpr.Source
