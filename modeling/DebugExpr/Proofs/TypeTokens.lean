import DebugExpr.Proofs.TypeReading

/-! What the readers of types take. A type that was read is written in the tokens that were taken,
and is nested no deeper than the levels that were left. With the way back from tokens to types this
says of each reader of types exactly when it answers what. -/
namespace DebugExpr.Source
open Metadata Parsing

/-- What a reader answers has a property and is written in the tokens that it takes. -/
def Takes {α : Type} (tokens : α → List TokenKind) (P : α → Prop) (read : Parser α) : Prop :=
  ∀ input x rest, read input = .ok (x, rest) →
    P x ∧ input.map (·.kind) = tokens x ++ rest.map (·.kind)

section Taken
variable {α : Type} {tokens : α → List TokenKind} {P : α → Prop} {input rest : List Token}
  {b : Bounds}

theorem takeMark?_takes {sign : Mark} (taken : takeMark? sign input = some rest) :
    input.map (·.kind) = .mark sign :: rest.map (·.kind) := by
  obtain ⟨token, same, rfl⟩ := takeMark?_eq_some.mp taken
  rw [List.map_cons, same]

theorem expectMark_takes {sign : Mark} (taken : expectMark b sign input = .ok rest) :
    input.map (·.kind) = .mark sign :: rest.map (·.kind) :=
  takeMark?_takes (expectMark_eq_ok.mp taken)

theorem takeNameDot?_takes (taken : takeNameDot? input = some rest) :
    input.map (·.kind) = .mark .dot :: rest.map (·.kind) := by
  unfold takeNameDot? at taken
  split at taken
  · cases taken
    rfl
  · cases taken

/-- A list is written item by item, with a separator in front of each but the first. -/
theorem separated_takes {separator : List Token → Option (List Token)} {item : Parser α}
    {mark : TokenKind} (takes : Takes tokens P item)
    (between : ∀ input rest, separator input = some rest →
      input.map (·.kind) = mark :: rest.map (·.kind)) {items : List α}
    (read : separated separator item input = .ok (items, rest)) :
    items ≠ [] ∧ (∀ x ∈ items, P x) ∧
      input.map (·.kind) = [mark].intercalate (items.map tokens) ++ rest.map (·.kind) := by
  simp only [separated_eq, bind_eq_ok] at read
  obtain ⟨⟨first, remaining⟩, one, read⟩ := read
  obtain ⟨holds, written⟩ := takes _ _ _ one
  obtain ⟨more, rfl, all, last⟩ := iterate_invariant
    (P := fun items left => ∃ more, items = first :: more ∧ (∀ x ∈ items, P x) ∧
      input.map (·.kind) =
        tokens first ++ more.flatMap (mark :: tokens ·) ++ left.map (·.kind))
    (fun items left next rest step kept => by
      obtain ⟨more, rfl, all, before⟩ := kept
      unfold separatedStep at step
      split at step
      · cases step
      · next behind found =>
        simp only [bind_eq_ok, pure_eq_ok, Option.some.injEq, Prod.mk.injEq] at step
        obtain ⟨⟨x, after⟩, one, rfl, rfl⟩ := step
        obtain ⟨new, taken⟩ := takes _ _ _ one
        refine ⟨more ++ [x], rfl, List.forall_mem_append.mpr ⟨all, by simpa using new⟩, ?_⟩
        rw [before, between _ _ found, taken]
        simp)
    read ⟨[], rfl, by simpa using holds, by simpa using written⟩
  refine ⟨by simp, all, ?_⟩
  rw [last, List.map_cons, intercalate_singleton, List.flatMap_map]

end Taken

section Types
variable {b : Bounds} {type : Parser TypeExpr} {P : TypeExpr → Prop}

theorem readTypeArgs_takes (takes : Takes TypeExpr.tokens P type) :
    Takes TypeExpr.argTokens (fun args => ∀ t ∈ args, P t) (readTypeArgs b type) := by
  intro input args rest read
  unfold readTypeArgs at read
  split at read
  · cases read
    exact ⟨nofun, rfl⟩
  · next behind opened =>
    simp only [bind_eq_ok, pure_eq_ok, Prod.mk.injEq] at read
    obtain ⟨⟨items, after⟩, itemsRead, left, closed, rfl, rfl⟩ := read
    obtain ⟨nonempty, all, written⟩ :=
      separated_takes takes (fun _ _ => takeMark?_takes) itemsRead
    obtain ⟨first, more, rfl⟩ := List.exists_cons_of_ne_nil nonempty
    refine ⟨all, ?_⟩
    rw [takeMark?_takes opened, written, expectMark_takes closed]
    simp [TypeExpr.argTokens, angled, commas]

theorem readTypeSegment_takes (takes : Takes TypeExpr.tokens P type) :
    Takes TypeExpr.segmentTokens (fun segment => ∀ t ∈ segment.2, P t)
      (readTypeSegment b type) := by
  intro input segment rest read
  simp only [readTypeSegment, bind_eq_ok, pure_eq_ok, Prod.mk.injEq] at read
  obtain ⟨⟨name, behind⟩, nameRead, ⟨args, after⟩, argsRead, rfl, rfl⟩ := read
  obtain ⟨token, same, rfl⟩ := readName_eq_ok nameRead
  obtain ⟨all, written⟩ := readTypeArgs_takes takes _ _ _ argsRead
  refine ⟨all, ?_⟩
  rw [List.map_cons, same, written]
  rfl

variable {levels : Nat} (takes : Takes TypeExpr.tokens (·.depth ≤ levels) type)
include takes

theorem readDottedType_takes {isGlobal : Bool} {input rest : List Token} {t : TypeExpr}
    (read : readDottedType b type isGlobal input = .ok (t, rest)) :
    t.depth ≤ levels + 1 ∧
      (if isGlobal then [.global, .mark .doubleColon] else []) ++ input.map (·.kind) =
        t.tokens ++ rest.map (·.kind) := by
  simp only [readDottedType, bind_eq_ok, pure_eq_ok, Prod.mk.injEq] at read
  obtain ⟨⟨segments, after⟩, segmentsRead, rfl, rfl⟩ := read
  obtain ⟨-, all, written⟩ :=
    separated_takes (readTypeSegment_takes takes) (fun _ _ => takeNameDot?_takes) segmentsRead
  refine ⟨TypeExpr.depth_named_le all, ?_⟩
  rw [TypeExpr.tokens_named, written, List.append_assoc]

theorem readTypeHead_takes :
    Takes TypeExpr.tokens (·.depth ≤ levels + 1) (readTypeHead b type) := by
  intro input t rest read
  unfold readTypeHead at read
  split at read
  · cases read
    exact ⟨Nat.succ_le_succ (Nat.zero_le _), rfl⟩
  · simp only [bind_eq_ok] at read
    obtain ⟨behind, taken, read⟩ := read
    obtain ⟨shallow, written⟩ := readDottedType_takes takes read
    refine ⟨shallow, ?_⟩
    rw [← written, List.map_cons, expectMark_takes taken]
    rfl
  · split at read
    · split at read
      · cases read
      · exact readDottedType_takes takes read
    · cases read

omit takes

theorem readRanks_takes {element t : TypeExpr} {input rest : List Token}
    (read : readRanks b element input = .ok (t, rest)) :
    t.depth = element.depth ∧
      element.tokens ++ input.map (·.kind) = t.tokens ++ rest.map (·.kind) := by
  refine iterate_invariant (P := fun (t : TypeExpr) left => t.depth = element.depth ∧
    element.tokens ++ input.map (·.kind) = t.tokens ++ left.map (·.kind)) ?_ read ⟨rfl, rfl⟩
  rintro t left next rest step ⟨depth, before⟩
  split at step
  · cases step
  · next behind taken =>
    simp only [bind_eq_ok, pure_eq_ok, Option.some.injEq, Prod.mk.injEq] at step
    obtain ⟨after, closed, rfl, rfl⟩ := step
    have opened : left.map (·.kind) = .mark .openBracket :: behind.map (·.kind) := by
      unfold takeArrayBracket? at taken
      split at taken
      · split at taken <;> cases taken <;> rfl
      · cases taken
    have commas : (behind.takeWhile isComma).map (·.kind) =
        List.replicate (behind.takeWhile isComma).length (.mark .comma) := by
      refine List.eq_replicate_iff.mpr ⟨List.length_map .., List.forall_mem_map.mpr ?_⟩
      intro token member
      have comma : isComma token = true := List.mem_takeWhile_imp member
      exact beq_iff_eq.mp comma
    refine ⟨depth, ?_⟩
    rw [before, opened, ← List.takeWhile_append_dropWhile (p := isComma) (l := behind),
      List.map_append, commas, expectMark_takes closed]
    simp [TypeExpr.tokens]

theorem readTypeExpr_spelled (levels : Nat) :
    Takes TypeExpr.tokens (·.depth ≤ levels) (readTypeExpr b levels) := by
  induction levels with
  | zero => exact fun input t rest read => nomatch read
  | succ levels ih =>
    intro input t rest read
    simp only [readTypeExpr, readTypeBody, bind_eq_ok] at read
    obtain ⟨⟨head, behind⟩, headRead, read⟩ := read
    obtain ⟨shallow, written⟩ := readTypeHead_takes ih _ _ _ headRead
    split at read
    · next after taken =>
      obtain ⟨depth, rest⟩ := readRanks_takes read
      refine ⟨depth.trans_le shallow, ?_⟩
      rw [written, takeMark?_takes taken, ← rest]
      simp [TypeExpr.tokens]
    · obtain ⟨depth, rest⟩ := readRanks_takes read
      exact ⟨depth.trans_le shallow, written.trans rest⟩

end Types

section Answers
variable {b : Bounds} {levels : Nat} {input rest : List Token}

/-- All tokens have spellings, as those of a text do. -/
def AllSpellable (input : List Token) : Prop :=
  ∀ token ∈ input, token.kind.Spellable

theorem AllSpellable.tail {token : Token} (all : AllSpellable (token :: rest)) :
    AllSpellable rest :=
  fun token member => all token (List.mem_cons_of_mem _ member)

theorem allSpellable_drops : Drops AllSpellable :=
  fun _ _ _ => AllSpellable.tail

/-- The tokens are the last of the input. -/
theorem suffix_drops : Drops fun rest => ∃ taken, input = taken ++ rest := by
  rintro token rest - ⟨taken, rfl⟩
  exact ⟨taken ++ [token], by simp⟩

theorem allSpellable_spelled : Spelled AllSpellable :=
  fun token _ all => all token List.mem_cons_self

/-- What is taken from the front is what the kinds of tokens show. -/
theorem taken_of_kinds {taken : List Token} {kinds : List TokenKind}
    (written : (taken ++ rest).map (·.kind) = kinds ++ rest.map (·.kind)) :
    taken.map (·.kind) = kinds := by
  rw [List.map_append] at written
  exact List.append_cancel_right written

/-- The tokens of a type are of kinds that types are made of. -/
theorem TypeExpr.Readable.inType_tokens {t : TypeExpr} (readable : t.Readable) :
    ∀ k ∈ t.tokens, inType k = true := by
  have spelled : (t.tokens.map fun k => (⟨k, 0⟩ : Token)).map (·.kind) = t.tokens := by
    rw [List.map_map]
    exact List.map_id _
  have read := readTypeExpr_read (b := ⟨0, 0⟩) readable (Nat.le_refl _) spelled
    (nofun : Lacks typeMarks [])
  obtain ⟨taken, same, all⟩ := readTypeExpr_takes read
  rw [List.append_nil, List.append_nil] at same
  intro k member
  exact all ⟨k, 0⟩ (same ▸ List.mem_map_of_mem member)

/-- In front of what cannot continue a type, a type is read just when it is written there and not
nested too deeply. -/
theorem readTypeExpr_eq_ok {t : TypeExpr} (spellable : AllSpellable input)
    (behind : Lacks typeMarks rest) : readTypeExpr b levels input = .ok (t, rest) ↔
      t.Readable ∧ t.depth ≤ levels ∧
        ∃ taken, input = taken ++ rest ∧ taken.map (·.kind) = t.tokens := by
  constructor
  · intro read
    obtain ⟨shallow, written⟩ := readTypeExpr_spelled levels _ _ _ read
    obtain ⟨taken, rfl, -⟩ := readTypeExpr_takes read
    have readable := (readTypeExpr_keeps allSpellable_drops levels _ _ _ read spellable).1
    exact ⟨readable allSpellable_spelled, shallow, taken, rfl, taken_of_kinds written⟩
  · rintro ⟨readable, shallow, taken, rfl, spelled⟩
    exact readTypeExpr_read readable shallow spelled behind

/-- Type arguments are read just when they are written and none is nested too deeply. -/
theorem readTypeArgs_eq_ok {args : List TypeExpr} (spellable : AllSpellable input) :
    readTypeArgs b (readTypeExpr b levels) input = .ok (args, rest) ↔
      (∀ t ∈ args, t.Readable ∧ t.depth ≤ levels) ∧ (args = [] → Lacks [.less] rest) ∧
        ∃ taken, input = taken ++ rest ∧ taken.map (·.kind) = TypeExpr.argTokens args := by
  constructor
  · intro read
    obtain ⟨shallow, written⟩ := readTypeArgs_takes (readTypeExpr_spelled levels) _ _ _ read
    obtain ⟨taken, rfl⟩ : ∃ taken, input = taken ++ rest :=
      (readTypeArgs_keeps suffix_drops (readTypeExpr_keeps suffix_drops levels) _ _ _ read
        ⟨[], rfl⟩).2
    have readable := (readTypeArgs_keeps allSpellable_drops
      (readTypeExpr_keeps allSpellable_drops levels) _ _ _ read spellable).1 allSpellable_spelled
    refine ⟨fun t member => ⟨readable t member, shallow t member⟩, ?_, taken, rfl,
      taken_of_kinds written⟩
    rintro rfl
    have nothing : taken = [] := List.map_eq_nil_iff.mp (taken_of_kinds written)
    subst nothing
    unfold readTypeArgs at read
    split at read
    · next lacks => exact lacks_of_takeMark? lacks
    · simp only [bind_eq_ok, pure_eq_ok, Prod.mk.injEq] at read
      obtain ⟨⟨items, after⟩, itemsRead, _, _, none, -⟩ := read
      obtain ⟨nonempty, -⟩ := separated_takes (readTypeExpr_spelled levels)
        (fun _ _ => takeMark?_takes) itemsRead
      exact absurd none nonempty
  · rintro ⟨each, behind, taken, rfl, spelled⟩
    have reads : ReadsTypes (readTypeExpr b levels) args := fun t member _ _ =>
      readTypeExpr_read (each t member).1 (each t member).2
    cases args with
    | nil => exact readTypeArgs_read reads spelled (behind rfl)
    | cons first more => exact readTypeArgs_angled reads spelled rest

/-- A cast is read just when its type is written in parentheses, not nested too deeply, and is no
name that could as well be an operand. -/
theorem readCastType?_eq_some {t : TypeExpr} (spellable : AllSpellable input) :
    readCastType? (readTypeExpr b levels) input = some (t, rest) ↔
      t.Readable ∧ t.depth ≤ levels ∧ (t.isPlainName = true → startsOperand rest = true) ∧
        ∃ taken, input = taken ++ rest ∧ taken.map (·.kind) = parenthesize t.tokens := by
  have close : Mark.closeParen ∉ typeMarks := by decide
  constructor
  · intro read
    simp only [readCastType?, Option.bind_eq_bind, Option.bind_eq_some_iff] at read
    obtain ⟨inner, opened, ⟨_, behind⟩, typeRead, after, closed, read⟩ := read
    obtain ⟨opening, isOpen, rfl⟩ := takeMark?_eq_some.mp opened
    obtain ⟨closing, isClose, rfl⟩ := takeMark?_eq_some.mp closed
    split at read
    · cases read
    · next cast =>
      cases read
      obtain ⟨readable, shallow, taken, rfl, spelled⟩ :=
        (readTypeExpr_eq_ok spellable.tail (lacks_of_mark isClose close)).mp
          (toOption_eq_some.mp typeRead)
      refine ⟨readable, shallow, by simpa using cast, opening :: (taken ++ [closing]), by simp, ?_⟩
      simp [parenthesize, spelled, isOpen, isClose]
  · rintro ⟨readable, shallow, cast, taken, rfl, spelled⟩
    obtain ⟨position, inner, closing, spelledInner, isClose, split⟩ := exists_between spelled
    have read : readTypeExpr b levels (inner ++ closing :: rest) = .ok (t, closing :: rest) :=
      readTypeExpr_read readable shallow spelledInner (lacks_of_mark isClose close)
    have closed : takeMark? .closeParen (closing :: rest) = some rest := takeMark?_cons isClose
    have noName : ¬ (t.isPlainName && !startsOperand rest) = true := by simpa using cast
    rw [split, readCastType?, takeMark?_cons rfl]
    simp only [Option.bind_eq_bind, Option.bind_some, toOption_eq_some.mpr read, closed,
      if_neg noName]

end Answers

end DebugExpr.Source
