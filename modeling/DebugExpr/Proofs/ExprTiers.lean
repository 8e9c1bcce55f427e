import DebugExpr.Proofs.ExprShapes

/-! The readers of the tiers. Each reader goes on from what that of the next tier has read. An
expression is read back from its tokens wherever none follows that continues it, and one that groups
to the left even where one follows: its reader goes on from there. What a reader reads, every looser
one reads, and so it may stand in parentheses. -/
namespace DebugExpr.Source
open Metadata Parsing

/-- The tier whose reader goes on at a token. A name goes on with its type arguments. -/
def tierAt? : TokenKind → Option Nat
  | .mark .less => some 6
  | .mark .dot | .mark .openParen | .mark .openBracket => some 5
  | .mark .star | .mark .slash => some 3
  | .mark .plus | .mark .minus => some 2
  | .mark .doubleQuestion => some 1
  | .mark .assign | .mark .plusAssign | .mark .minusAssign | .mark .starAssign
  | .mark .slashAssign => some 0
  | _ => none

/-- Nothing follows that continues an expression of the tier. -/
def Ends (tier : Nat) (rest : List Token) : Prop :=
  ∀ token ∈ rest.head?, (tierAt? token.kind).all (· < tier) = true

section Ends
variable {tier higher : Nat} {token : Token} {rest : List Token} {k : TokenKind}

theorem ends_nil : Ends tier [] :=
  nofun

theorem Ends.mono (ends : Ends tier rest) (le : tier ≤ higher) : Ends higher rest := by
  intro token head
  have all := ends token head
  cases found : tierAt? token.kind with
  | none => rfl
  | some t =>
    rw [found, Option.all_some, decide_eq_true_eq] at all
    rw [Option.all_some, decide_eq_true_eq]
    omega

theorem ends_of_kind (same : token.kind = k) (all : (tierAt? k).all (· < tier) = true) :
    Ends tier (token :: rest) := by
  rintro _ ⟨⟩
  rw [same]
  exact all

/-- No token goes on at the tier of signs and casts. -/
theorem Ends.operand (ends : Ends 5 rest) : Ends 4 rest := by
  intro token head
  have all := ends token head
  unfold tierAt? at all ⊢
  split <;> simp_all

theorem Ends.lacks (ends : Ends tier rest) {marks : List Mark}
    (all : ∀ sign ∈ marks, (tierAt? (.mark sign)).all (· < tier) = false) : Lacks marks rest := by
  intro token head sign member same
  have inside := ends token head
  rw [same, all sign member] at inside
  cases inside

/-- A token that continues a tier does not follow what ends it. -/
theorem Ends.absurd (ends : Ends tier (token :: rest))
    (continues : tierAt? token.kind = some higher) (le : tier ≤ higher) : False := by
  have all := ends token rfl
  rw [continues, Option.all_some, decide_eq_true_eq] at all
  omega

theorem tierAt?_of_additive {op : BinaryOp} (found : additive? k = some op) :
    tierAt? k = some 2 := by
  unfold additive? at found
  split at found <;> first | rfl | cases found

theorem tierAt?_of_multiplicative {op : BinaryOp} (found : multiplicative? k = some op) :
    tierAt? k = some 3 := by
  unfold multiplicative? at found
  split at found <;> first | rfl | cases found

theorem tierAt?_of_assignment {op : Option BinaryOp} (found : assignment? k = some op) :
    tierAt? k = some 0 := by
  unfold assignment? at found
  split at found <;> first | rfl | cases found

end Ends

/-- One further operand behind its operator. -/
def chainStep (operator? : TokenKind → Option BinaryOp) (operand : Parser Expr) (left : Expr)
    (ts : List Token) : Except Error (Option (Expr × List Token)) :=
  match ts with
  | [] => .ok none
  | token :: ts =>
    match operator? token.kind with
    | none => .ok none
    | some op => do
      let (right, ts) ← operand ts
      return some (.binary left.position op left right, ts)

/-- The right side of `??`, if there is one. -/
def continueFallback (coalesce : Parser Expr) (left : Expr) : Parser Expr := fun ts =>
  match takeMark? .doubleQuestion ts with
  | none => .ok (left, ts)
  | some ts => do
    let (right, ts) ← coalesce ts
    return (.coalesce left.position left right, ts)

/-- The value of an assignment, if there is one. -/
def continueAssignment (assignment : Parser Expr) (target : Expr) : Parser Expr := fun ts =>
  match ts with
  | [] => .ok (target, [])
  | token :: rest =>
    match assignment? token.kind with
    | none => .ok (target, token :: rest)
    | some op => do
      let (value, ts) ← assignment rest
      return (.assign target.position target op value, ts)

/-- The reader of a tier where there are levels enough for one operand and what it holds. -/
def readTier (b : Bounds) (n : Nat) : Nat → Parser Expr
  | 0 => readExpr b (n + 2)
  | 1 => readFallback b (n + 1)
  | 2 => readSum (readOperand b (n + 1))
  | 3 => readChain multiplicative? (readOperand b (n + 1))
  | 4 => readOperand b (n + 1)
  | _ => readAccess b (readTypeExpr b n) (readExpr b n)

/-- How the reader of a tier goes on from what the next tier has read. -/
def continueTier (b : Bounds) (n : Nat) : Nat → Expr → Parser Expr
  | 0 => continueAssignment (readExpr b (n + 1))
  | 1 => continueFallback (readFallback b n)
  | 2 => iterate (chainStep additive? (readTier b n 3))
  | 3 => iterate (chainStep multiplicative? (readTier b n 4))
  | 4 => fun operand ts => .ok (operand, ts)
  | _ => iterate (readStep b (readTypeExpr b n) (readExpr b n))

section Tiers
variable {b : Bounds} {n tier : Nat} {ts rest : List Token}

theorem readTier_eq (looser : tier < 4) : readTier b n tier ts = (do
    let (x, ts) ← readTier b n (tier + 1) ts
    continueTier b n tier x ts) := by
  match tier with
  | 0 => rfl
  | 1 => rfl
  | 2 => rfl
  | 3 => rfl

theorem chainStep_ends {operator? : TokenKind → Option BinaryOp} {operand : Parser Expr}
    {x : Expr} (continues : ∀ k op, operator? k = some op → tierAt? k = some tier)
    (ends : Ends tier rest) : chainStep operator? operand x rest = .ok none := by
  cases rest with
  | nil => rfl
  | cons token rest =>
    cases found : operator? token.kind with
    | none => simp only [chainStep, found]
    | some op => exact (ends.absurd (continues _ _ found) (Nat.le_refl tier)).elim

theorem readTier_access {x : Expr}
    (atom : readAtom b (readTypeExpr b n) (readExpr b n) ts = .ok (x, rest)) :
    readTier b n 5 ts = continueTier b n 5 x rest := by
  simp only [readTier, readAccess, atom]
  rfl

/-- The reader of a tier stops where nothing continues the tier. -/
theorem continueTier_ends {x : Expr} (atMost : tier ≤ 5) (ends : Ends tier rest) :
    continueTier b n tier x rest = .ok (x, rest) := by
  match tier with
  | 0 =>
    cases rest with
    | nil => rfl
    | cons token rest =>
      cases found : assignment? token.kind with
      | none => simp only [continueTier, continueAssignment, found]
      | some op => exact (ends.absurd (tierAt?_of_assignment found) (Nat.le_refl 0)).elim
  | 1 =>
    have lacks : Lacks [.doubleQuestion] rest := ends.lacks (by decide)
    simp only [continueTier, continueFallback, lacks.takeMark? (List.mem_singleton_self _)]
  | 2 => exact iterate_eq_ok (chainStep_ends (fun _ _ => tierAt?_of_additive) ends)
  | 3 => exact iterate_eq_ok (chainStep_ends (fun _ _ => tierAt?_of_multiplicative) ends)
  | 4 => rfl
  | 5 =>
    refine iterate_eq_ok ?_
    unfold readStep
    split
    · exact (ends.absurd rfl (Nat.le_refl 5)).elim
    · exact (ends.absurd rfl (Nat.le_refl 5)).elim
    · exact (ends.absurd rfl (Nat.le_refl 5)).elim
    · rfl

end Tiers

/-- An expression is read back by the reader of a tier. -/
def Reads (b : Bounds) (n tier : Nat) (kinds : List TokenKind) (x : Expr) : Prop :=
  ∀ ts rest, ts.map (·.kind) = kinds → Ends tier rest →
    ∃ y, y.bare = x.bare ∧ readTier b n tier (ts ++ rest) = .ok (y, rest)

/-- The reader of a tier goes on from an expression, whatever of the tier follows. -/
def Opens (b : Bounds) (n tier : Nat) (kinds : List TokenKind) (x : Expr) : Prop :=
  ∀ ts rest, ts.map (·.kind) = kinds → Ends (tier + 1) rest →
    ∃ y, y.bare = x.bare ∧ readTier b n tier (ts ++ rest) = continueTier b n tier y rest

section Lifts
variable {b : Bounds} {n tier : Nat} {kinds : List TokenKind} {x : Expr}

theorem Opens.reads (opens : Opens b n tier kinds x) (atMost : tier ≤ 5) :
    Reads b n tier kinds x := by
  intro ts rest spelled ends
  obtain ⟨y, same, read⟩ := opens ts rest spelled (ends.mono (Nat.le_succ tier))
  exact ⟨y, same, read.trans (continueTier_ends atMost ends)⟩

/-- What stands in parentheses is taken for no cast. -/
theorem readCastType?_loose {paren : Token} {ts rest : List Token}
    (loose : Loose (ts.map (·.kind))) :
    readCastType? (readTypeExpr b n) (paren :: (ts ++ rest)) = none := by
  rw [Option.eq_none_iff_forall_ne_some]
  rintro ⟨t, after⟩ cast
  simp only [readCastType?, Option.bind_eq_bind, Option.bind_eq_some_iff, toOption_eq_some] at cast
  obtain ⟨inner, opened, ⟨type, behind⟩, read, after, closed, -⟩ := cast
  obtain ⟨_, -, split⟩ := takeMark?_eq_some.mp opened
  obtain ⟨-, rfl⟩ := List.cons.inj split
  obtain ⟨taken, split, all⟩ := readTypeExpr_takes read
  obtain ⟨close, isClose, rfl⟩ := takeMark?_eq_some.mp closed
  -- The first token of no type would be the closing parenthesis behind the type.
  have closes : firstOther ((taken ++ close :: after).map (·.kind)) = some (.mark .closeParen) := by
    rw [List.map_append, firstOther_append, List.map_cons, isClose]
    have none : firstOther (taken.map (·.kind)) = none :=
      List.find?_eq_none.mpr (by simpa using all)
    rw [none, Option.none_or]
    rfl
  rw [← split, List.map_append] at closes
  exact (loose.append _).clear closes

theorem readOperandBody_plain {type : Parser TypeExpr} {expr unary : Parser Expr} {k : TokenKind}
    {position : Nat} {ts : List Token} (starts : startsOperand [⟨k, 0⟩] = true)
    (none : readCastType? type (⟨k, position⟩ :: ts) = none) :
    readOperandBody b type expr unary (⟨k, position⟩ :: ts) =
      readAccess b type expr (⟨k, position⟩ :: ts) := by
  unfold readOperandBody
  split
  · next same =>
    obtain ⟨⟨rfl, -⟩, -⟩ := same
    cases starts
  · next same =>
    obtain ⟨⟨rfl, -⟩, -⟩ := same
    cases starts
  · rw [none]

theorem readOperandBody_cast {type : Parser TypeExpr} {expr unary : Parser Expr} {position : Nat}
    {ts behind rest : List Token} {t : TypeExpr}
    (cast : readCastType? type (⟨.mark .openParen, position⟩ :: ts) = some (t, behind))
    (read : unary behind = .ok (x, rest)) :
    readOperandBody b type expr unary (⟨.mark .openParen, position⟩ :: ts) =
      .ok (.cast position t x, rest) := by
  simp only [readOperandBody, cast, read]
  rfl

/-- What begins an operand and no cast is read as a primary expression. -/
theorem readOperand_plain (plain : Plain kinds) {ts rest : List Token}
    (spelled : ts.map (·.kind) = kinds) :
    readTier b n 4 (ts ++ rest) = readTier b n 5 (ts ++ rest) := by
  obtain ⟨k, more, rfl, starts, loose⟩ := plain
  obtain ⟨position, ts, rfl, rfl⟩ := exists_first spelled
  rw [List.cons_append]
  refine readOperandBody_plain starts ?_
  by_cases paren : k = .mark .openParen
  · exact readCastType?_loose (loose paren)
  · have none : takeMark? .openParen (⟨k, position⟩ :: (ts ++ rest)) = none := if_neg paren
    exact Option.bind_eq_none_iff.mpr fun inner opened => nomatch none.symm.trans opened

theorem Reads.opens (reads : Reads b n (tier + 1) kinds x) (atMost : tier ≤ 4)
    (plain : tier = 4 → Plain kinds) : Opens b n tier kinds x := by
  intro ts rest spelled ends
  obtain ⟨y, same, read⟩ := reads ts rest spelled ends
  refine ⟨y, same, ?_⟩
  by_cases looser : tier < 4
  · rw [readTier_eq looser, read]
    rfl
  · obtain rfl : tier = 4 := by omega
    rw [readOperand_plain (plain rfl) spelled, read]
    rfl

end Lifts

/-- The expression is read back from the tokens by the reader of the tier, given the levels that it
takes. If it groups to the left or to neither side, the reader goes on from it. -/
structure Binds (b : Bounds) (tier depth : Nat) (kinds : List TokenKind) (x : Expr) : Prop where
  reads : ∀ n, depth ≤ n → Reads b n tier kinds x
  opens : 2 ≤ tier → ∀ n, depth ≤ n → Opens b n tier kinds x

namespace Binds
variable {b : Bounds} {tier looser depth : Nat} {kinds : List TokenKind} {x : Expr}

theorem ofOpens (atMost : tier ≤ 5) (opens : ∀ n, depth ≤ n → Opens b n tier kinds x) :
    Binds b tier depth kinds x :=
  ⟨fun n fits => (opens n fits).reads atMost, fun _ => opens⟩

theorem ofReads (right : tier < 2) (reads : ∀ n, depth ≤ n → Reads b n tier kinds x) :
    Binds b tier depth kinds x :=
  ⟨reads, fun left => absurd left (by omega)⟩

/-- A reader reads what the reader of a tighter tier reads. -/
theorem mono (binds : Binds b tier depth kinds x) (atMost : tier ≤ 5)
    (plain : tier = 5 → Plain kinds) (le : looser ≤ tier) : Binds b looser depth kinds x := by
  induction tier with
  | zero =>
    obtain rfl := Nat.le_zero.mp le
    exact binds
  | succ tier ih =>
    rcases Nat.eq_or_lt_of_le le with rfl | less
    · exact binds
    · refine ih (ofOpens (by omega) fun n fits => ?_) (by omega) (by omega) (by omega)
      exact (binds.reads n fits).opens (by omega) fun same => plain (by omega)

theorem parenthesize (binds : Binds b 0 depth kinds x) :
    Binds b 5 (depth + 2) (parenthesize kinds) x := by
  refine ofOpens (Nat.le_refl 5) fun n fits ts rest spelled ends => ?_
  obtain ⟨position, inner, close, spelledInner, isClose, split⟩ := exists_between spelled
  obtain ⟨m, rfl⟩ := Nat.exists_eq_add_of_le' (show 2 ≤ n by omega)
  obtain ⟨y, same, read⟩ := binds.reads m (by omega) inner (close :: rest) spelledInner
    (ends_of_kind isClose rfl)
  have read : readExpr b (m + 2) (inner ++ close :: rest) = .ok (y, close :: rest) := read
  have atom : readAtom b (readTypeExpr b (m + 2)) (readExpr b (m + 2))
      (⟨.mark .openParen, position⟩ :: (inner ++ close :: rest)) = .ok (y, rest) := by
    simp only [readAtom, read, ok_bind, expectMark_cons isClose]
    rfl
  refine ⟨y, same, ?_⟩
  rw [split]
  exact readTier_access atom

theorem placed {e : Expr} (binds : Binds b e.tier e.depth e.tokens e)
    (shaped : Shaped e.tier e.tokens) (atMost : looser ≤ 5) :
    Binds b looser (e.placedDepth looser e.depth) (e.placed looser e.tokens) e := by
  unfold Expr.placed Expr.placedDepth
  split
  · next less =>
    have whole := (binds.mono e.tier_le shaped.plain (Nat.zero_le _)).parenthesize
    exact whole.mono (Nat.le_refl 5) (fun _ => plain_parenthesize (shaped.loose (by omega))) atMost
  · next tight => exact binds.mono e.tier_le shaped.plain (by omega)

theorem placedUnderCast {e : Expr} (binds : Binds b e.tier e.depth e.tokens e)
    (shaped : Shaped e.tier e.tokens) :
    Binds b 4 (e.placedDepthUnderCast e.depth) (e.placedUnderCast e.tokens) e := by
  unfold Expr.placedUnderCast Expr.placedDepthUnderCast
  split
  · next negation =>
    have less : e.tier < 5 := by
      cases e with
      | negate => simp [Expr.tier]
      | _ => cases negation
    have whole := (binds.mono e.tier_le shaped.plain (Nat.zero_le _)).parenthesize
    exact whole.mono (Nat.le_refl 5) (fun _ => plain_parenthesize (shaped.loose less)) (by omega)
  · exact binds.placed shaped (by omega)

end Binds

end DebugExpr.Source
