import DebugExpr.Proofs.TypeTokens

/-! Types that are nested too deeply, read as expressions. What stands in parentheses is taken for
an expression if it is read as no type. A type that is only nested too deeply is no expression
either: its arguments are nested too deeply for a name as well, so that its closing parenthesis is
not reached. -/
namespace DebugExpr.Source
open Metadata Parsing

section Arguments
variable {b : Bounds} {levels : Nat} {input rest rest' taken : List Token}
  {args args' : List TypeExpr}

/-- The type arguments that are read are those that are written. -/
theorem readTypeArgs_unique (spellable : AllSpellable (taken ++ rest))
    (spelled : taken.map (·.kind) = TypeExpr.argTokens args) (readable : ∀ t ∈ args, t.Readable)
    (behind : args = [] → Lacks [.less] rest)
    (read : readTypeArgs b (readTypeExpr b levels) (taken ++ rest) = .ok (args', rest')) :
    args' = args ∧ rest' = rest ∧ ∀ t ∈ args, t.depth ≤ levels := by
  obtain ⟨each, behind', written⟩ := (readTypeArgs_eq_ok spellable).mp read
  let most := max levels (TypeExpr.depthOfAll args)
  have shorter : readTypeArgs b (readTypeExpr b most) (taken ++ rest) = .ok (args', rest') :=
    (readTypeArgs_eq_ok spellable).mpr ⟨fun t member =>
      ⟨(each t member).1, (each t member).2.trans (Nat.le_max_left ..)⟩, behind', written⟩
  have longer : readTypeArgs b (readTypeExpr b most) (taken ++ rest) = .ok (args, rest) :=
    (readTypeArgs_eq_ok spellable).mpr ⟨fun t member => ⟨readable t member,
      (TypeExpr.depth_le_all member).trans (Nat.le_max_right ..)⟩, behind, taken, rfl, spelled⟩
  rw [shorter] at longer
  cases longer
  exact ⟨rfl, rfl, fun t member => (each t member).2⟩

end Arguments

/-- An argument of the parts of a name is nested too deeply. -/
def TooDeep (levels : Nat) (segments : List (String × List TypeExpr)) : Prop :=
  ∃ segment ∈ segments, ∃ t ∈ segment.2, levels < t.depth

/-- The parts of a name behind the first, each with its dot. -/
def dottedTokens (segments : List (String × List TypeExpr)) : List TokenKind :=
  segments.flatMap (.mark .dot :: TypeExpr.segmentTokens ·)

section Names
variable {b : Bounds} {levels : Nat} {expr : Parser Expr} {ts rest : List Token}
  {segment : String × List TypeExpr} {segments : List (String × List TypeExpr)}

theorem TooDeep.later (deep : TooDeep levels (segment :: segments))
    (shallow : ∀ t ∈ segment.2, t.depth ≤ levels) : TooDeep levels segments := by
  obtain ⟨deepest, listed, t, member, deeper⟩ := deep
  rcases List.mem_cons.mp listed with rfl | later
  · exact absurd deeper (Nat.not_lt.mpr (shallow t member))
  · exact ⟨deepest, later, t, member, deeper⟩

/-- Behind a part without arguments a further part follows. -/
theorem TooDeep.lacks (deep : TooDeep levels (segment :: segments))
    (spelled : ts.map (·.kind) = dottedTokens segments) (none : segment.2 = []) :
    Lacks [.less] (ts ++ rest) := by
  obtain ⟨_, member, -⟩ := deep.later (by simp [none])
  obtain ⟨first, more, rfl⟩ := List.exists_cons_of_ne_nil (List.ne_nil_of_mem member)
  rw [dottedTokens, List.flatMap_cons, List.cons_append] at spelled
  obtain ⟨_, _, rfl, -⟩ := exists_first spelled
  exact lacks_of_mark rfl (by decide)

/-- No expression is read that goes on with parts of which one is nested too deeply. -/
theorem readSteps_tooDeep (readable : ∀ s ∈ segments, ∀ t ∈ s.2, t.Readable)
    (deep : TooDeep levels segments) (spelled : ts.map (·.kind) = dottedTokens segments)
    (spellable : AllSpellable (ts ++ rest)) (target x : Expr) (left : List Token) :
    iterate (readStep b (readTypeExpr b levels) expr) target (ts ++ rest) ≠ .ok (x, left) := by
  induction segments generalizing ts target with
  | nil =>
    obtain ⟨_, member, -⟩ := deep
    cases member
  | cons segment more ih =>
    rw [List.forall_mem_cons] at readable
    rw [dottedTokens, List.flatMap_cons, List.cons_append] at spelled
    obtain ⟨_, behindDot, rfl, spelledName⟩ := exists_first spelled
    obtain ⟨_, behindName, rfl, spelledArgs⟩ := exists_first spelledName
    obtain ⟨args, others, rfl, spelledArgs, spelledOthers⟩ :=
      List.map_eq_append_iff.mp spelledArgs
    have spellableArgs : AllSpellable (args ++ (others ++ rest)) := by
      simpa using spellable.tail.tail
    intro read
    rw [List.cons_append, List.cons_append, List.append_assoc] at read
    obtain ⟨none, -⟩ | ⟨next, after, step, further⟩ := iterate_cases read
    · simp [readStep, readName] at none
    · simp only [readStep, readName, ok_bind, bind_eq_ok, pure_eq_ok, Option.some.injEq,
        Prod.mk.injEq] at step
      obtain ⟨⟨args', _⟩, argsRead, rfl, rfl⟩ := step
      obtain ⟨rfl, rfl, shallow⟩ := readTypeArgs_unique spellableArgs spelledArgs readable.1
        (deep.lacks spelledOthers) argsRead
      rw [if_pos (by simp only [List.length_cons, List.length_append]; omega)] at further
      exact ih readable.2 (deep.later shallow) spelledOthers
        (fun token member => spellableArgs token (by simp_all)) _ further

/-- If the reader succeeds at all, it stops in front of an angle bracket. -/
def StopsAtLess {α : Type} (read : Parser α) (input : List Token) : Prop :=
  ∀ x rest, read input = .ok (x, rest) → ∃ token more, rest = token :: more ∧
    token.kind = .mark .less

theorem readAccess_tooDeep {isGlobal : Bool} (nonempty : segments ≠ [])
    (readable : ∀ s ∈ segments, ∀ t ∈ s.2, t.Readable) (deep : TooDeep levels segments)
    (spelled : ts.map (·.kind) = (TypeExpr.named isGlobal segments).tokens)
    (spellable : AllSpellable (ts ++ rest)) :
    StopsAtLess (readAccess b (readTypeExpr b levels) expr) (ts ++ rest) := by
  obtain ⟨first, more, rfl⟩ := List.exists_cons_of_ne_nil nonempty
  rw [List.forall_mem_cons] at readable
  rw [TypeExpr.tokens_named, List.map_cons, intercalate_singleton, List.flatMap_map] at spelled
  intro x left read
  simp only [readAccess, bind_eq_ok] at read
  obtain ⟨⟨atom, behind⟩, atomRead, read⟩ := read
  cases isGlobal with
  | false =>
    obtain ⟨_, behindName, rfl, spelledArgs⟩ := exists_first spelled
    obtain ⟨args, others, rfl, spelledArgs, spelledOthers⟩ :=
      List.map_eq_append_iff.mp spelledArgs
    have spellableArgs : AllSpellable (args ++ (others ++ rest)) := by
      simpa using spellable.tail
    rw [List.cons_append, List.append_assoc] at atomRead
    simp only [readAtom, bind_eq_ok, pure_eq_ok, Prod.mk.injEq] at atomRead
    obtain ⟨⟨args', _⟩, argsRead, rfl, rfl⟩ := atomRead
    obtain ⟨rfl, rfl, shallow⟩ := readTypeArgs_unique spellableArgs spelledArgs readable.1
      (deep.lacks spelledOthers) argsRead
    exact absurd read (readSteps_tooDeep readable.2 (deep.later shallow) spelledOthers
      (fun token member => spellableArgs token (by simp_all)) _ _ _)
  | true =>
    obtain ⟨_, _, rfl, spelledColons⟩ := exists_first spelled
    obtain ⟨_, _, rfl, spelledName⟩ := exists_first spelledColons
    obtain ⟨_, _, rfl, spelledArgs⟩ := exists_first spelledName
    obtain ⟨args, others, rfl, spelledArgs, spelledOthers⟩ :=
      List.map_eq_append_iff.mp spelledArgs
    have spellableArgs : AllSpellable (args ++ (others ++ rest)) := by
      simpa using spellable.tail.tail.tail
    simp only [List.cons_append, List.append_assoc, readAtom, expectMark_cons, ok_bind,
      pure_eq_ok, Prod.mk.injEq] at atomRead
    obtain ⟨rfl, rfl⟩ := atomRead
    cases firstArgs : first.2 with
    | nil =>
      -- a global name takes no arguments of its own, but none are written here
      rw [firstArgs] at spelledArgs
      obtain rfl : args = [] := List.map_eq_nil_iff.mp spelledArgs
      exact absurd read (readSteps_tooDeep readable.2 (deep.later (by simp [firstArgs]))
        spelledOthers spellableArgs _ _ _)
    | cons arg further =>
      rw [firstArgs] at spelledArgs
      obtain ⟨_, inside, rfl, -⟩ := exists_first spelledArgs
      obtain ⟨-, -, rfl⟩ | ⟨_, _, step, -⟩ := iterate_cases read
      · exact ⟨_, _, rfl, rfl⟩
      · cases step

/-- A type that is nested too deeply is no operand, whatever marks stand behind its name. -/
theorem readOperandBody_tooDeep {t : TypeExpr} (readable : t.Readable) (deep : levels + 1 < t.depth)
    {unary : Parser Expr} (spelled : ts.map (·.kind) = t.tokens)
    (spellable : AllSpellable (ts ++ rest)) :
    StopsAtLess (readOperandBody b (readTypeExpr b levels) expr unary) (ts ++ rest) := by
  induction readable generalizing ts rest with
  | keyword =>
    rw [TypeExpr.depth] at deep
    omega
  | @named isGlobal segments nonempty names first args ih =>
    have deepArgs : TooDeep levels segments := by
      by_contra shallow
      simp only [TooDeep, not_exists, not_and, Nat.not_lt] at shallow
      exact absurd deep (Nat.not_lt.mpr (TypeExpr.depth_named_le shallow))
    have access : StopsAtLess (readAccess b (readTypeExpr b levels) expr) (ts ++ rest) :=
      readAccess_tooDeep nonempty args deepArgs spelled spellable
    obtain ⟨first, more, rfl⟩ := List.exists_cons_of_ne_nil nonempty
    rw [TypeExpr.tokens_named, List.map_cons, intercalate_singleton] at spelled
    cases isGlobal <;>
      · obtain ⟨_, _, rfl, -⟩ := exists_first spelled
        exact access
  | nullable head readable ih =>
    obtain ⟨own, mark, rfl, spelledOwn, -⟩ := List.map_eq_append_iff.mp spelled
    rw [List.append_assoc] at spellable ⊢
    exact ih deep spelledOwn spellable
  | array positive readable ih =>
    obtain ⟨own, brackets, rfl, spelledOwn, -⟩ := List.map_eq_append_iff.mp spelled
    rw [List.append_assoc] at spellable ⊢
    exact ih deep spelledOwn spellable

section Tiers
variable {input : List Token}

theorem StopsAtLess.readChain {operand : Parser Expr} (stops : StopsAtLess operand input)
    {operator? : TokenKind → Option BinaryOp} (other : operator? (.mark .less) = none) :
    StopsAtLess (readChain operator? operand) input := by
  intro x rest read
  simp only [Source.readChain, bind_eq_ok] at read
  obtain ⟨⟨first, behind⟩, firstRead, read⟩ := read
  obtain ⟨⟨_, _⟩, more, rfl, rfl⟩ := stops _ _ firstRead
  obtain ⟨-, -, rfl⟩ | ⟨_, _, step, -⟩ := iterate_cases read
  · exact ⟨_, _, rfl, rfl⟩
  · simp [other] at step

theorem StopsAtLess.readFallbackBody {sum coalesce : Parser Expr}
    (stops : StopsAtLess sum input) : StopsAtLess (readFallbackBody sum coalesce) input := by
  intro x rest read
  simp only [Source.readFallbackBody, bind_eq_ok] at read
  obtain ⟨⟨left, behind⟩, leftRead, read⟩ := read
  obtain ⟨⟨_, _⟩, more, rfl, rfl⟩ := stops _ _ leftRead
  cases read
  exact ⟨_, _, rfl, rfl⟩

theorem StopsAtLess.readExprBody {coalesce assignment : Parser Expr}
    (stops : StopsAtLess coalesce input) :
    StopsAtLess (readExprBody coalesce assignment) input := by
  intro x rest read
  simp only [Source.readExprBody, bind_eq_ok] at read
  obtain ⟨⟨target, behind⟩, targetRead, read⟩ := read
  obtain ⟨⟨_, _⟩, more, rfl, rfl⟩ := stops _ _ targetRead
  cases read
  exact ⟨_, _, rfl, rfl⟩

end Tiers

/-- A type that is nested too deeply is no expression in front of a closing parenthesis. -/
theorem readExpr_tooDeep {t : TypeExpr} (readable : t.Readable) (deep : levels < t.depth)
    (spelled : ts.map (·.kind) = t.tokens) (spellable : AllSpellable (ts ++ rest)) :
    StopsAtLess (readExpr b levels) (ts ++ rest) := by
  match levels with
  | 0 => exact fun x left read => nomatch read
  | 1 => exact fun x left read => nomatch read
  | levels + 2 =>
    rw [readExpr, readFallback]
    have operand : StopsAtLess (readOperandBody b (readTypeExpr b levels) (readExpr b levels)
        (readOperand b levels)) (ts ++ rest) :=
      readOperandBody_tooDeep readable (Nat.lt_of_succ_lt deep) spelled spellable
    exact ((operand.readChain rfl).readChain rfl).readFallbackBody.readExprBody

end Names

end DebugExpr.Source
