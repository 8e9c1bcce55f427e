import DebugExpr.Proofs.ExprDepths
import DebugExpr.Proofs.Repetition
import DebugExpr.Proofs.Subexpressions
import DebugExpr.Source.Parse

/-! Heights of parsed trees. Trees have edges of two kinds. The readers count levels as they go
down the ones, and loops build the others, from an operation to its left operand and from an access
to what stands before it. The limit on nesting bounds the edges of the first kind on every way
down, and so it bounds the height by the longest run of edges of the second kind. -/
namespace DebugExpr.Source
open Parsing

namespace Expr

mutual

/-- The length of the longest way down, where a link counts as much as is said and every other edge
counts one. -/
def reach (link : Nat) : Expr → Nat
  | name .. | global .. | literal .. | this _ => 0
  | member _ target _ _ => reach link target + link
  | invoke _ target args => max (reach link target + link) (reachOfArgs link args)
  | index _ target indices => max (reach link target + link) (reachOfAll link indices)
  | cast _ _ operand | negate _ operand => reach link operand + 1
  | binary _ _ left right => max (reach link left + link) (reach link right + 1)
  | coalesce _ left right => max (reach link left + 1) (reach link right + 1)
  | assign _ target _ value => max (reach link target + 1) (reach link value + 1)

def reachOfArgs (link : Nat) : List (Passing × Expr) → Nat
  | [] => 0
  | (_, value) :: rest => max (reach link value + 1) (reachOfArgs link rest)

def reachOfAll (link : Nat) : List Expr → Nat
  | [] => 0
  | e :: rest => max (reach link e + 1) (reachOfAll link rest)

end

/-- The edges on the longest way down. -/
def height (e : Expr) : Nat :=
  e.reach 1

/-- The most edges on a way down that are no links. -/
def nesting (e : Expr) : Nat :=
  e.reach 0

/-- The links that follow one another from the node on. -/
def run : Expr → Nat
  | member _ target _ _ | invoke _ target _ | index _ target _ => run target + 1
  | binary _ _ left _ => run left + 1
  | _ => 0

def greatestRun (es : List Expr) : Nat :=
  (es.map run).foldr max 0

/-- The most links that follow one another from any node on. -/
def longestRun (e : Expr) : Nat :=
  greatestRun e.subexprs

theorem run_le_greatestRun {e : Expr} {es : List Expr} (member : e ∈ es) :
    e.run ≤ greatestRun es :=
  le_of_greatest (fun _ _ => rfl) member

theorem reachOfArgs_le {link n : Nat} {args : List (Passing × Expr)}
    (each : ∀ arg ∈ args, arg.2.reach link + 1 ≤ n) : reachOfArgs link args ≤ n := by
  induction args with
  | nil => exact Nat.zero_le n
  | cons arg rest ih =>
    rw [reachOfArgs]
    exact Nat.max_le.mpr ⟨each arg (by simp), ih fun arg member => each arg (by simp [member])⟩

theorem reachOfAll_le {link n : Nat} {es : List Expr}
    (each : ∀ e ∈ es, e.reach link + 1 ≤ n) : reachOfAll link es ≤ n := by
  induction es with
  | nil => exact Nat.zero_le n
  | cons e rest ih =>
    rw [reachOfAll]
    exact Nat.max_le.mpr ⟨each e (by simp), ih fun e member => each e (by simp [member])⟩

theorem reach_le_args {link : Nat} {arg : Passing × Expr} {args : List (Passing × Expr)}
    (member : arg ∈ args) : arg.2.reach link + 1 ≤ reachOfArgs link args :=
  le_of_greatest (f := fun arg : Passing × Expr => arg.2.reach link + 1)
    (fun _ _ => by rw [reachOfArgs]) member

theorem reach_le_all {link : Nat} {e : Expr} {es : List Expr} (member : e ∈ es) :
    e.reach link + 1 ≤ reachOfAll link es :=
  le_of_greatest (f := fun e => e.reach link + 1) (fun _ _ => by rw [reachOfAll]) member

/-- The height of a node is bounded by the run from it on, and by one run and one edge more for each
level of nesting below it. -/
def Bounded (most : Nat) (e : Expr) : Prop :=
  e.height ≤ e.nesting * (most + 1) + e.run

/-- An edge that is no link makes room for the run behind it. -/
theorem Bounded.edge {most n : Nat} {part : Expr} (bounded : part.Bounded most)
    (short : part.run ≤ most) (deeper : part.nesting + 1 ≤ n) :
    part.height + 1 ≤ n * (most + 1) :=
  calc part.height + 1 ≤ part.nesting * (most + 1) + (most + 1) := by
        unfold Bounded at bounded
        omega
    _ = (part.nesting + 1) * (most + 1) := (Nat.succ_mul ..).symm
    _ ≤ n * (most + 1) := Nat.mul_le_mul_right _ deeper

/-- A link adds to the run behind it. -/
theorem Bounded.link {most n : Nat} {part : Expr} (bounded : part.Bounded most)
    (asDeep : part.nesting ≤ n) : part.height + 1 ≤ n * (most + 1) + (part.run + 1) := by
  have := Nat.mul_le_mul_right (most + 1) asDeep
  unfold Bounded at bounded
  omega

theorem runs_part {most : Nat} {e : Expr} (part : Expr)
    (runs : ∀ sub ∈ e.subexprs, sub.run ≤ most) (direct : part ∈ e.parts) :
    part.run ≤ most ∧ ∀ sub ∈ part.subexprs, sub.run ≤ most :=
  ⟨runs part (subexprs_part direct part.self_mem_subexprs),
    fun sub below => runs sub (subexprs_part direct below)⟩

theorem bounded_of_runs {most : Nat} (e : Expr) (runs : ∀ sub ∈ e.subexprs, sub.run ≤ most) :
    e.Bounded most := by
  induction e using Expr.induction with
  | name | global | literal | this => exact Nat.zero_le _
  | member p target n typeArgs ih =>
    obtain ⟨_, inside⟩ := runs_part target runs (by simp [parts])
    exact (ih inside).link (Nat.le_refl _)
  | invoke p target args ih ihArgs =>
    obtain ⟨_, inside⟩ := runs_part target runs (by simp [parts])
    refine Nat.max_le.mpr ⟨(ih inside).link (Nat.le_max_left ..), ?_⟩
    refine (reachOfArgs_le fun arg member => ?_).trans (Nat.le_add_right _ _)
    obtain ⟨short, inside⟩ := runs_part arg.2 runs
      (List.mem_cons_of_mem _ (List.mem_map_of_mem member))
    exact (ihArgs arg member inside).edge short
      ((reach_le_args member).trans (Nat.le_max_right ..))
  | index p target indices ih ihIndices =>
    obtain ⟨_, inside⟩ := runs_part target runs (by simp [parts])
    refine Nat.max_le.mpr ⟨(ih inside).link (Nat.le_max_left ..), ?_⟩
    refine (reachOfAll_le fun i member => ?_).trans (Nat.le_add_right _ _)
    obtain ⟨short, inside⟩ := runs_part i runs (List.mem_cons_of_mem _ member)
    exact (ihIndices i member inside).edge short
      ((reach_le_all member).trans (Nat.le_max_right ..))
  | cast p type operand ih | negate p operand ih =>
    obtain ⟨short, inside⟩ := runs_part operand runs (by simp [parts])
    exact (ih inside).edge short (Nat.le_refl _)
  | binary p op left right ihLeft ihRight =>
    obtain ⟨_, insideLeft⟩ := runs_part left runs (by simp [parts])
    obtain ⟨short, insideRight⟩ := runs_part right runs (by simp [parts])
    exact Nat.max_le.mpr ⟨(ihLeft insideLeft).link (Nat.le_max_left ..),
      ((ihRight insideRight).edge short (Nat.le_max_right ..)).trans (Nat.le_add_right _ _)⟩
  | coalesce p left right ihLeft ihRight | assign p left op right ihLeft ihRight =>
    obtain ⟨shortLeft, insideLeft⟩ := runs_part left runs (by simp [parts])
    obtain ⟨shortRight, insideRight⟩ := runs_part right runs (by simp [parts])
    exact Nat.max_le.mpr ⟨(ihLeft insideLeft).edge shortLeft (Nat.le_max_left ..),
      (ihRight insideRight).edge shortRight (Nat.le_max_right ..)⟩

theorem height_le (e : Expr) :
    e.height ≤ e.nesting * (e.longestRun + 1) + e.longestRun := by
  have bounded : e.Bounded e.longestRun :=
    bounded_of_runs e fun sub below => run_le_greatestRun below
  have := run_le_greatestRun e.self_mem_subexprs
  exact bounded.trans (Nat.add_le_add_left this _)

end Expr

section Readers
variable {b : Bounds} {type : Parser TypeExpr} {expr : Parser Expr} {n : Nat}

/-- What the reader answers is nested no deeper than the bound. -/
def ReadsWithin (n : Nat) (read : Parser Expr) : Prop :=
  ∀ input e rest, read input = .ok (e, rest) → e.nesting ≤ n

theorem ReadsWithin.mono {m : Nat} {read : Parser Expr} (within : ReadsWithin n read)
    (weaker : n ≤ m) : ReadsWithin m read :=
  fun input e rest read => (within input e rest read).trans weaker

theorem readsWithin_tooDeep : ReadsWithin n fun _ => b.tooDeep :=
  fun _ _ _ read => by cases read

/-- A chain hangs its first operand on links, and each further one below one edge more. -/
theorem readChain_within {operator? : TokenKind → Option BinaryOp} {operand : Parser Expr}
    (within : ReadsWithin n operand) : ReadsWithin (n + 1) (readChain operator? operand) := by
  intro input e rest read
  simp only [readChain, bind_eq_ok] at read
  obtain ⟨⟨first, behind⟩, firstRead, chain⟩ := read
  refine iterate_keeps (P := fun e : Expr => e.nesting ≤ n + 1) ?_ chain
    ((within _ _ _ firstRead).trans (Nat.le_succ n))
  intro left input next rest step bounded
  split at step
  · cases step
  split at step
  · cases step
  · simp only [bind_eq_ok, pure_eq_ok, Option.some.injEq, Prod.mk.injEq] at step
    obtain ⟨⟨right, after⟩, rightRead, rfl, -⟩ := step
    exact Nat.max_le.mpr ⟨bounded, Nat.succ_le_succ (within _ _ _ rightRead)⟩

theorem readSum_within {operand : Parser Expr} (within : ReadsWithin n operand) :
    ReadsWithin (n + 2) (readSum operand) :=
  readChain_within (readChain_within within)

theorem readAtom_within (within : ReadsWithin n expr) : ReadsWithin n (readAtom b type expr) := by
  intro input e rest read
  unfold readAtom at read
  split at read
  case h_10 =>
    simp only [bind_eq_ok, pure_eq_ok, Prod.mk.injEq] at read
    obtain ⟨⟨inner, behind⟩, innerRead, _, _, rfl, -⟩ := read
    exact within _ _ _ innerRead
  case h_1 | h_2 =>
    simp only [bind_eq_ok, pure_eq_ok, Prod.mk.injEq] at read
    obtain ⟨_, _, rfl, -⟩ := read
    exact Nat.zero_le n
  case h_3 =>
    simp only [bind_eq_ok] at read
    obtain ⟨_, _, read⟩ := read
    split at read
    · cases read
      exact Nat.zero_le n
    · cases read
  case h_11 => cases read
  all_goals
    cases read
    exact Nat.zero_le n

theorem readArgument_within (within : ReadsWithin n expr) {input rest : List Token}
    {arg : Passing × Expr} (read : readArgument expr input = .ok (arg, rest)) :
    arg.2.nesting + 1 ≤ n + 1 := by
  simp only [readArgument, bind_eq_ok, pure_eq_ok, Prod.mk.injEq] at read
  obtain ⟨⟨value, behind⟩, valueRead, rfl, -⟩ := read
  exact Nat.succ_le_succ (within _ _ _ valueRead)

/-- An access hangs what stands before it on a link, and its arguments below one edge more. -/
theorem readStep_within (within : ReadsWithin n expr) {target next : Expr}
    {input rest : List Token} (read : readStep b type expr target input = .ok (some (next, rest)))
    (bounded : target.nesting ≤ n + 1) : next.nesting ≤ n + 1 := by
  unfold readStep at read
  split at read
  · simp only [bind_eq_ok, pure_eq_ok, Option.some.injEq, Prod.mk.injEq] at read
    obtain ⟨_, _, _, _, rfl, -⟩ := read
    exact bounded
  · simp only [bind_eq_ok, pure_eq_ok, Option.some.injEq, Prod.mk.injEq] at read
    obtain ⟨⟨args, behind⟩, argsRead, rfl, -⟩ := read
    refine Nat.max_le.mpr ⟨bounded, Expr.reachOfArgs_le ?_⟩
    unfold readArgumentList at argsRead
    split at argsRead
    · cases argsRead
      simp
    · simp only [bind_eq_ok, pure_eq_ok, Prod.mk.injEq] at argsRead
      obtain ⟨⟨items, after⟩, itemsRead, _, _, rfl, -⟩ := argsRead
      exact (separated_items (fun _ _ _ => readArgument_within within) itemsRead).2
  · simp only [bind_eq_ok, pure_eq_ok, Option.some.injEq, Prod.mk.injEq] at read
    obtain ⟨⟨indices, behind⟩, indicesRead, _, _, rfl, -⟩ := read
    refine Nat.max_le.mpr ⟨bounded, Expr.reachOfAll_le ?_⟩
    exact (separated_items (P := fun i : Expr => i.nesting + 1 ≤ n + 1)
      (fun _ _ _ one => Nat.succ_le_succ (within _ _ _ one)) indicesRead).2
  · cases read

theorem readAccess_within (within : ReadsWithin n expr) :
    ReadsWithin (n + 1) (readAccess b type expr) := by
  intro input e rest read
  simp only [readAccess, bind_eq_ok] at read
  obtain ⟨⟨primary, behind⟩, primaryRead, steps⟩ := read
  exact iterate_keeps (P := fun e : Expr => e.nesting ≤ n + 1)
    (fun _ _ _ _ => readStep_within within) steps
    ((readAtom_within within _ _ _ primaryRead).trans (Nat.le_succ n))

theorem readOperandBody_within {unary : Parser Expr} (within : ReadsWithin n expr)
    (withinUnary : ReadsWithin n unary) :
    ReadsWithin (n + 1) (readOperandBody b type expr unary) := by
  intro input e rest read
  unfold readOperandBody at read
  split at read
  · simp only [bind_eq_ok, pure_eq_ok, Prod.mk.injEq] at read
    obtain ⟨⟨operand, behind⟩, operandRead, rfl, -⟩ := read
    exact Nat.succ_le_succ (withinUnary _ _ _ operandRead)
  · exact (withinUnary _ _ _ read).trans (Nat.le_succ n)
  split at read
  · simp only [bind_eq_ok, pure_eq_ok, Prod.mk.injEq] at read
    obtain ⟨⟨operand, behind⟩, operandRead, rfl, -⟩ := read
    exact Nat.succ_le_succ (withinUnary _ _ _ operandRead)
  · exact readAccess_within within _ _ _ read

theorem readFallbackBody_within {sum coalesce : Parser Expr} (within : ReadsWithin n sum)
    (withinRight : ReadsWithin n coalesce) :
    ReadsWithin (n + 1) (readFallbackBody sum coalesce) := by
  intro input e rest read
  simp only [readFallbackBody, bind_eq_ok] at read
  obtain ⟨⟨left, behind⟩, leftRead, read⟩ := read
  split at read
  · cases read
    exact (within _ _ _ leftRead).trans (Nat.le_succ n)
  · simp only [bind_eq_ok, pure_eq_ok, Prod.mk.injEq] at read
    obtain ⟨⟨right, after⟩, rightRead, rfl, -⟩ := read
    exact Nat.max_le.mpr ⟨Nat.succ_le_succ (within _ _ _ leftRead),
      Nat.succ_le_succ (withinRight _ _ _ rightRead)⟩

theorem readExprBody_within {coalesce assignment : Parser Expr} (within : ReadsWithin n coalesce)
    (withinValue : ReadsWithin n assignment) :
    ReadsWithin (n + 1) (readExprBody coalesce assignment) := by
  intro input e rest read
  simp only [readExprBody, bind_eq_ok] at read
  obtain ⟨⟨target, behind⟩, targetRead, read⟩ := read
  have bounded := within _ _ _ targetRead
  split at read
  · cases read
    exact bounded.trans (Nat.le_succ n)
  split at read
  · cases read
    exact bounded.trans (Nat.le_succ n)
  · simp only [bind_eq_ok, pure_eq_ok, Prod.mk.injEq] at read
    obtain ⟨⟨value, after⟩, valueRead, rfl, -⟩ := read
    exact Nat.max_le.mpr ⟨Nat.succ_le_succ bounded, Nat.succ_le_succ (withinValue _ _ _ valueRead)⟩

/-- One level is at most three edges: the tiers of a sum add two to what an operand takes, and `??`
or an assignment one. -/
theorem levels_within (levels : Nat) : ReadsWithin (3 * levels) (readOperand b levels) ∧
    ReadsWithin (3 * levels + 3) (readFallback b levels) ∧
    ReadsWithin (3 * levels + 1) (readExpr b levels) := by
  induction levels with
  | zero =>
    rw [readOperand, readFallback, readExpr]
    exact ⟨readsWithin_tooDeep, (readSum_within readsWithin_tooDeep).mono (Nat.le_succ 2),
      readsWithin_tooDeep⟩
  | succ levels ih =>
    obtain ⟨operand, fallback, expr⟩ := ih
    rw [readOperand, readFallback, readExpr]
    have body : ReadsWithin (3 * levels + 2)
        (readOperandBody b (readTypeExpr b levels) (readExpr b levels) (readOperand b levels)) :=
      readOperandBody_within expr (operand.mono (Nat.le_succ _))
    refine ⟨body.mono (by omega), ?_, ?_⟩
    · exact (readFallbackBody_within (readSum_within body)
        (fallback.mono (by omega))).mono (by omega)
    · exact (readExprBody_within fallback (expr.mono (by omega))).mono (by omega)

end Readers

/-- The limit on nesting bounds the edges that the readers count, and the height by the longest run
of links. It bounds the height alone where no two links follow one another. -/
theorem parse_height {text : String} {maxDepth : Nat} {e : Expr}
    (read : parse text maxDepth = .ok e) :
    e.nesting ≤ 3 * maxDepth + 1 ∧
      e.height ≤ (3 * maxDepth + 1) * (e.longestRun + 1) + e.longestRun ∧
      (e.longestRun ≤ 1 → e.height ≤ 8 * maxDepth + 8) := by
  simp only [parse, bind_eq_ok] at read
  obtain ⟨scanned, -, ⟨found, rest⟩, exprRead, read⟩ := read
  have nested := (levels_within maxDepth).2.2 _ _ _ exprRead
  split at read
  next same =>
    cases same
    cases read
    have bounded := e.height_le.trans
      (Nat.add_le_add_right (Nat.mul_le_mul_right (e.longestRun + 1) nested) _)
    refine ⟨nested, bounded, fun short => bounded.trans ?_⟩
    calc (3 * maxDepth + 1) * (e.longestRun + 1) + e.longestRun
      _ ≤ (3 * maxDepth + 1) * 2 + 1 :=
        Nat.add_le_add (Nat.mul_le_mul_left _ (Nat.succ_le_succ short)) short
      _ ≤ 8 * maxDepth + 8 := by omega
  · cases read

theorem nested_call_height : ∃ e, parse "-f(c + (int)d[0], e ?? this.x) * g" 8 = .ok e ∧
    e.longestRun ≤ 1 ∧ e.nesting ≤ 3 * 8 + 1 ∧
    e.height ≤ (3 * 8 + 1) * (e.longestRun + 1) + e.longestRun ∧ e.height ≤ 8 * 8 + 8 := by
  obtain ⟨e, read, short⟩ : ∃ e, parse "-f(c + (int)d[0], e ?? this.x) * g" 8 = .ok e ∧
      e.longestRun ≤ 1 := exists_ok_of_any (by decide +kernel)
  obtain ⟨nested, bounded, flat⟩ := parse_height read
  exact ⟨e, read, short, nested, bounded, flat short⟩

/-- Links take no level: a sum of any length is read within two levels, and each of its signs adds
to the height. -/
theorem long_sum_height : ∃ e,
    parse "0+0+0+0+0+0+0+0+0+0+0+0+0+0+0+0+0+0+0+0+0+0+0+0+0+0" 2 = .ok e ∧
      8 * 2 + 8 < e.height :=
  exists_ok_of_any (by decide +kernel)

end DebugExpr.Source
