import DebugExpr.Proofs.JoinedTexts
import DebugExpr.Proofs.PlacelessBinding
import DebugExpr.Proofs.SampleScope
import DebugExpr.Proofs.SharedReadings

/-! Two ways to ask for an assignment: with two texts, or with one text that has an equals sign
between them. What is compiled is the same. -/
namespace DebugExpr
open Source DebugExpr.Bound

namespace Source

theorem readExprBody_plain {coalesce assignment : Parser Expr} {ts : List Token} {e : Expr}
    (read : readExprBody coalesce assignment ts = .ok (e, [])) (plain : e.isAssignment = false) :
    coalesce ts = .ok (e, []) := by
  simp only [readExprBody, bind_eq_ok] at read
  obtain ⟨⟨target, behind⟩, one, read⟩ := read
  cases behind with
  | nil =>
    cases read
    exact one
  | cons token rest =>
    dsimp only at read
    split at read
    · cases read
    · simp only [bind_eq_ok, pure_eq_ok, Prod.mk.injEq] at read
      obtain ⟨_, -, rfl, -⟩ := read
      cases plain

/-- Two texts with an equals sign between them are an assignment of the second to the first, though
one level is left less for the second. -/
theorem parse_joined {target source : String} {maxDepth : Nat} {t v whole : Expr}
    (readTarget : parse target maxDepth = .ok t) (plain : t.isAssignment = false)
    (readSource : parse source maxDepth = .ok v)
    (readWhole : parse (target ++ " = " ++ source) maxDepth = .ok whole) :
    whole.bare = .assign 0 t.bare none v.bare := by
  obtain ⟨scannedTarget, scanTarget, readTarget⟩ := parse_eq_ok.mp readTarget
  obtain ⟨scannedSource, scanSource, readSource⟩ := parse_eq_ok.mp readSource
  obtain ⟨scannedWhole, scanWhole, readWhole⟩ := parse_eq_ok.mp readWhole
  obtain ⟨joined, scanJoined, kinds⟩ := scan_joined scanTarget scanSource
  obtain rfl := Except.ok.inj (scanJoined.symm.trans scanWhole)
  cases maxDepth with
  | zero => cases readTarget
  | succ levels =>
    rw [readExpr] at readTarget readWhole
    simp only [readExprBody, bind_eq_ok] at readWhole
    obtain ⟨⟨x, behind⟩, one, read⟩ := readWhole
    have shared : Extends _ scannedTarget.tokens joined.tokens :=
      ⟨spellable_of_scan scanJoined, kinds, fun k head => (Option.some.inj head).symm⟩
    obtain ⟨sameTarget, left⟩ := (levels_agree (Nat.le_refl levels)).2.1 _ _ _ _ _ _ shared
      (readExprBody_plain readTarget plain) one False.elim
    obtain ⟨_, values, rfl, spelled⟩ := exists_first left.kinds
    simp only [assignment?, bind_eq_ok, pure_eq_ok, Prod.mk.injEq] at read
    obtain ⟨⟨y, _⟩, two, rfl, -⟩ := read
    have alone : Extends [] scannedSource.tokens values :=
      ⟨left.spellable.tail, spelled.trans (List.append_nil _).symm, by simp⟩
    obtain ⟨sameValue, -⟩ := (levels_agree (Nat.le_succ levels)).2.2 _ _ _ _ _ _ alone readSource
      two fun _ _ => rfl
    simp only [Expr.bare, sameTarget, sameValue]

end Source

/-- An assignment compiles from two texts just when it compiles from one, and to the same. -/
theorem compileAssignment_eq_ok {s : Scope} {target source : String} {t v whole : Expr}
    (readTarget : parse target s.config.maxExpressionDepth = .ok t)
    (plain : t.isAssignment = false)
    (readSource : parse source s.config.maxExpressionDepth = .ok v)
    (readWhole : parse (target ++ " = " ++ source) s.config.maxExpressionDepth = .ok whole)
    (c : Compiled) : compileAssignment s target source = .ok c ↔
      compile s (target ++ " = " ++ source) {} = .ok c := by
  have same : whole.bare = (Expr.assign t.position t none v).bare :=
    parse_joined readTarget plain readSource readWhole
  have assigns : whole.isAssignment = true := by
    cases whole <;> first | rfl | cases same
  simp only [compileAssignment, Task.ofAssignment, compile, Task.ofExpression, readTarget,
    readSource, readWhole, ok_bind, assigns, bind_eq_ok, Scope.bind_eq_ok_of_bare same]
  -- without options an assignment is bound with side effects and compiled as a statement
  rfl

namespace Sample

/-- The program with two locals, a number and an array of numbers. -/
def withNumbers : Scope :=
  scope [] [⟨"x", type .int32⟩, ⟨"xs", .array (type .int32) 1⟩]

theorem number_assigned : ∃ c, compile withNumbers "xs[x] = -(int)x * 2" {} = .ok c ∧
    compileAssignment withNumbers "xs[x]" "-(int)x * 2" = .ok c := by
  have joined : "xs[x] = -(int)x * 2" = "xs[x]" ++ " = " ++ "-(int)x * 2" := by decide
  rw [joined]
  obtain ⟨c, compiles⟩ : ∃ c, compile withNumbers ("xs[x]" ++ " = " ++ "-(int)x * 2") {} = .ok c :=
    ok_of_isSome (by decide +kernel)
  obtain ⟨t, readTarget, plain⟩ : ∃ t, parse "xs[x]" 128 = .ok t ∧ t.isAssignment = false :=
    exists_ok_of_any (by decide +kernel)
  obtain ⟨v, readSource⟩ : ∃ v, parse "-(int)x * 2" 128 = .ok v :=
    ok_of_isSome (by decide +kernel)
  obtain ⟨whole, readWhole⟩ : ∃ whole, parse ("xs[x]" ++ " = " ++ "-(int)x * 2") 128 = .ok whole :=
    ok_of_isSome (by decide +kernel)
  exact ⟨c, compiles,
    (compileAssignment_eq_ok readTarget plain readSource readWhole c).mpr compiles⟩

end Sample

end DebugExpr
