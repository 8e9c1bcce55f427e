import DebugExpr.Proofs.JoinedTexts

/-! The parts of a scanned text. Every token takes a slice of the text, and what stands outside the
slices is blank. The same slices with other blanks between them are scanned as the same tokens. -/
namespace DebugExpr.Source
open Text Metadata Parsing

/-- The characters are all blank. -/
def Blank (gap : List Char) : Prop :=
  ∀ c ∈ gap, isBlank c = true

section Blank
variable {gap : List Char}

theorem Blank.drop_solid (blank : Blank gap) {c : Char} (solid : isBlank c = false)
    (rest : List Char) : dropBlanks (gap ++ c :: rest) = c :: rest := by
  rw [dropBlanks, List.dropWhile_append_of_pos blank, List.dropWhile_cons_of_neg (by simp [solid])]

theorem Blank.drop_all (blank : Blank gap) : dropBlanks gap = [] :=
  List.dropWhile_eq_nil_iff.mpr blank

end Blank

/-- The input consists of blanks and of the slices of tokens, which are what the scanner takes where
they stand. -/
inductive Sliced (length : Nat) : List Char → List (Token × List Char) → Prop
  | blank {gap : List Char} (blank : Blank gap) : Sliced length gap []
  | token {gap inside rest : List Char} {c : Char} {k : TokenKind}
    {parts : List (Token × List Char)} (blank : Blank gap) (solid : isBlank c = false)
    (taken : scanToken length c (inside ++ rest) = .ok (k, rest))
    (more : Sliced length rest parts) :
    Sliced length (gap ++ c :: (inside ++ rest))
      ((⟨k, positionOf length (c :: (inside ++ rest))⟩, c :: inside) :: parts)

/-- The text consists of the slices in their order, with blanks between each two of them, and with
blanks or none in front of the first and behind the last. -/
inductive Spaced : List (List Char) → List Char → Prop
  | blank {gap : List Char} (blank : Blank gap) : Spaced [] gap
  | slice {gap slice rest : List Char} {slices : List (List Char)} (blank : Blank gap)
    (ended : Ended rest) (more : Spaced slices rest) :
    Spaced (slice :: slices) (gap ++ (slice ++ rest))

/-- From the start on, the parts of a text lie one behind the other and begin at the positions of
their tokens, and every character outside of them is blank. -/
structure Covers (text : List Char) (start : Nat) (parts : List (Token × List Char)) : Prop where
  slices : ∀ part ∈ parts, start ≤ part.1.position ∧ part.2 ≠ [] ∧
    part.2 <+: text.drop part.1.position
  apart : parts.Pairwise fun first second =>
    first.1.position + first.2.length ≤ second.1.position
  outside : ∀ k c, start ≤ k → text[k]? = some c →
    (∀ part ∈ parts, k < part.1.position ∨ part.1.position + part.2.length ≤ k) →
    isBlank c = true

/-- Parts that lie one behind the other begin at increasing positions before the end. -/
theorem Covers.increasing {text : List Char} {start : Nat} {parts : List (Token × List Char)}
    (covers : Covers text start parts) :
    (parts.map (·.1.position) ++ [text.length]).Pairwise (· < ·) := by
  refine List.pairwise_append.mpr ⟨?_, List.pairwise_singleton _ _, ?_⟩
  · refine List.pairwise_map.mpr (covers.apart.imp_of_mem fun {first second} member _ behind => ?_)
    have visible := List.length_pos_iff.mpr (covers.slices first member).2.1
    omega
  · simp only [List.mem_map, List.mem_singleton]
    rintro _ ⟨part, member, rfl⟩ _ rfl
    obtain ⟨-, nonempty, inside⟩ := covers.slices part member
    have visible := List.length_pos_iff.mpr nonempty
    have fits := inside.length_le
    rw [List.length_drop] at fits
    omega

namespace Sliced
variable {length : Nat} {input text : List Char} {parts : List (Token × List Char)}

theorem of_iterate {left : List Char} {tokens result : List Token}
    (read : iterate (scanStep length) tokens input = .ok (result, left)) :
    ∃ parts, Sliced length input parts ∧ result = (parts.map (·.1)).reverse ++ tokens := by
  fun_induction iterate (scanStep length) tokens input with
  | case1 => cases read
  | case2 tokens input ends =>
    have blank : dropBlanks input = [] := by
      unfold scanStep at ends
      split at ends
      · assumption
      · simp at ends
    cases read
    exact ⟨[], .blank (List.dropWhile_eq_nil_iff.mp blank), rfl⟩
  | case3 tokens input next rest taken shorter ih =>
    obtain ⟨c, behind, k, front, token, rfl⟩ := scanStep_eq_ok taken
    obtain ⟨inside, rfl, -⟩ := scanToken_ends token
    obtain ⟨parts, sliced, rfl⟩ := ih read
    have whole : input.takeWhile isBlank ++ c :: (inside ++ rest) = input := by
      rw [← front, dropBlanks, List.takeWhile_append_dropWhile]
    have blank : Blank (input.takeWhile isBlank) := fun _ => List.mem_takeWhile_imp
    have extended := Sliced.token blank (isBlank_head_dropBlanks front) token sliced
    rw [whole] at extended
    exact ⟨_, extended, by simp⟩
  | case4 tokens input next rest taken longer =>
    obtain ⟨c, behind, k, front, token, rfl⟩ := scanStep_eq_ok taken
    obtain ⟨inside, rfl, -⟩ := scanToken_ends token
    have dropped := dropBlanks_length_le input
    rw [front, List.length_cons, List.length_append] at dropped
    omega

theorem covers {before : List Char} (sliced : Sliced text.length input parts)
    (split : text = before ++ input) : Covers text before.length parts := by
  generalize isLength : text.length = length at sliced
  induction sliced generalizing before with
  | blank blank =>
    refine ⟨nofun, .nil, fun k c start found _ => ?_⟩
    rw [split, List.getElem?_append_right start] at found
    exact blank c (List.mem_of_getElem? found)
  | @token gap inside rest c k parts blank solid taken more ih =>
    have position : positionOf length (c :: (inside ++ rest)) = before.length + gap.length := by
      subst split
      simp only [positionOf, ← isLength, List.length_append, List.length_cons]
      omega
    generalize positionOf length (c :: (inside ++ rest)) = place at position
    have whole : text = before ++ gap ++ (c :: inside ++ rest) := by simp [split]
    have behind : (before ++ gap ++ c :: inside).length = place + (c :: inside).length := by
      simp [position, Nat.add_assoc]
    obtain ⟨slices, apart, outside⟩ := @ih (before ++ gap ++ c :: inside) (by simp [split])
    rw [behind] at slices outside
    refine ⟨?_, .cons ?_ apart, ?_⟩
    · refine List.forall_mem_cons.mpr ⟨⟨by simp [position], by simp, rest, ?_⟩, ?_⟩
      · rw [whole, List.drop_left' (by simp [position])]
      · intro part member
        obtain ⟨start, rest⟩ := slices part member
        exact ⟨by omega, rest⟩
    · exact fun part member => (slices part member).1
    · intro k d start found away
      obtain ⟨here, later⟩ := List.forall_mem_cons.mp away
      obtain front | behind : k < place ∨ place + (c :: inside).length ≤ k := here
      · rw [whole, List.getElem?_append_left (by simp; omega),
          List.getElem?_append_right start] at found
        exact blank d (List.mem_of_getElem? found)
      · exact outside k d behind found later

/-- Behind blanks, a slice begins with a colon just when a double colon comes next. -/
theorem beforeColons_slice {gap inside rest : List Char} {c : Char} {k : TokenKind}
    (blank : Blank gap) (solid : isBlank c = false)
    (taken : scanToken length c (inside ++ rest) = .ok (k, rest)) (tail : List Char) :
    beforeColons (gap ++ c :: (inside ++ tail)) = decide (c = ':') := by
  rw [beforeColons, blank.drop_solid solid]
  by_cases colon : c = ':'
  · subst colon
    have two : inside ++ rest = [':'] ++ rest := scanToken_colon taken
    obtain rfl : inside = [':'] := List.append_cancel_right two
    rfl
  · simp [List.isPrefixOf, colon, Ne.symm colon]

/-- The slices with other blanks between them are scanned as the same tokens. -/
theorem scansAs (sliced : Sliced length input parts) (spaced : Spaced (parts.map (·.2)) text) :
    ScansAs text (parts.map (·.1.kind)) ∧ beforeColons text = beforeColons input := by
  induction sliced generalizing text with
  | blank blank =>
    cases spaced with
    | blank others =>
      refine ⟨fun length tokens behind same => scansAs_nil length tokens behind ?_, ?_⟩
      · rw [same, others.drop_all]
        rfl
      · rw [beforeColons, beforeColons, blank.drop_all, others.drop_all]
  | @token gap inside rest c k parts blank solid taken more ih =>
    cases spaced with
    | @slice gap' _ tail _ others ended spaced =>
      obtain ⟨scans, colons⟩ := ih spaced
      obtain ⟨inside', split, again⟩ := scanToken_ends taken
      obtain rfl : inside = inside' := List.append_cancel_right split
      rw [List.cons_append, beforeColons_slice blank solid taken,
        beforeColons_slice others solid taken]
      refine ⟨scans.token (others.drop_solid solid _) (by simp) fun length => ?_, rfl⟩
      exact again length tail (.inr ended) colons

end Sliced

/-- A text that is scanned consists of blanks and of a slice for each token, at increasing positions
up to the end of the text, and every text of these slices with other blanks between them is scanned
as the same tokens. -/
theorem scan_slices {text : String} {scanned : Scanned} (read : scan text = .ok scanned) :
    ∃ parts : List (Token × List Char), parts.map (·.1) = scanned.tokens ∧
      Sliced text.length text.toList parts ∧ Covers text.toList 0 parts ∧
      (scanned.tokens.map (·.position) ++ [scanned.stop]).Pairwise (· < ·) ∧
      scanned.stop = text.length ∧
      ∀ respaced : String, Spaced (parts.map (·.2)) respaced.toList →
        ∃ scanned', scan respaced = .ok scanned' ∧
          scanned'.tokens.map (·.kind) = scanned.tokens.map (·.kind) := by
  simp only [scan_eq, bind_eq_ok, pure_eq_ok] at read
  obtain ⟨⟨tokens, left⟩, read, rfl⟩ := read
  obtain ⟨parts, sliced, rfl⟩ := Sliced.of_iterate read
  have covers : Covers text.toList 0 parts := sliced.covers (List.nil_append _).symm
  simp only [List.append_nil, List.reverse_reverse]
  refine ⟨parts, rfl, sliced, covers, ?_, rfl, fun respaced spaced => ?_⟩
  · rw [List.map_map]
    exact covers.increasing
  · obtain ⟨scanned', again, same⟩ := scan_of_scansAs (sliced.scansAs spaced).1
    exact ⟨scanned', again, by rw [same, List.map_map]; rfl⟩

theorem difference_slices :
    let scanned : Scanned := ⟨[⟨.global, 0⟩, ⟨.mark .doubleColon, 6⟩, ⟨.identifier "A", 8⟩,
      ⟨.mark .minus, 9⟩, ⟨.integer 31, 10⟩], 14⟩
    scan "global::A-0x1F" = .ok scanned ∧
      ∃ parts : List (Token × List Char), parts.map (·.1) = scanned.tokens ∧
        Sliced 14 "global::A-0x1F".toList parts ∧ Covers "global::A-0x1F".toList 0 parts := by
  intro scanned
  obtain ⟨⟨tokens, stop⟩, read, same, ends⟩ : ∃ s, scan "global::A-0x1F" = .ok s ∧
      s.tokens = scanned.tokens ∧ s.stop = scanned.stop := exists_ok_of_any (by decide +kernel)
  obtain rfl : tokens = scanned.tokens := same
  obtain rfl : stop = scanned.stop := ends
  obtain ⟨parts, tokens, sliced, covers, -⟩ := scan_slices read
  exact ⟨read, parts, tokens, sliced, covers⟩

end DebugExpr.Source
