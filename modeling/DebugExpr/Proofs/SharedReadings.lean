import DebugExpr.Proofs.DeepTypes
import DebugExpr.Proofs.ExprPrinter

/-! Tokens that are read twice, alone and with fewer levels in front of an equals sign. Where both
readings succeed, they answer the same but for positions. Only what is no cast is tried as something
else; if that is so because its type is nested too deeply, the other attempt fails as well. -/
namespace DebugExpr.Source
open Metadata Parsing

/-- The second tokens are the first at other positions, and go on with nothing or an equals sign. -/
structure Extends (ext : List TokenKind) (ts ts' : List Token) : Prop where
  spellable : AllSpellable ts'
  kinds : ts'.map (·.kind) = ts.map (·.kind) ++ ext
  assigns : ∀ k ∈ ext.head?, k = .mark .assign

section Tokens
variable {ext : List TokenKind} {ts ts' : List Token}

theorem Extends.length_eq (shared : Extends ext ts ts') : ts'.length = ts.length + ext.length := by
  simpa using congrArg List.length shared.kinds

/-- Either both go on with the same token, or the first are over. -/
theorem Extends.cases (shared : Extends ext ts ts') :
    (ts = [] ∧ (ts' = [] ∨ ∃ place' rest', ts' = ⟨.mark .assign, place'⟩ :: rest')) ∨
      ∃ k place place' rest rest', ts = ⟨k, place⟩ :: rest ∧ ts' = ⟨k, place'⟩ :: rest' ∧
        Extends ext rest rest' := by
  obtain ⟨spellable, kinds, assigns⟩ := shared
  cases ts with
  | nil =>
    refine .inl ⟨rfl, ?_⟩
    rw [List.map_nil, List.nil_append] at kinds
    subst kinds
    cases ts' with
    | nil => exact .inl rfl
    | cons token rest' => exact .inr ⟨token.position, rest', by rw [← assigns token.kind rfl]⟩
  | cons token rest =>
    obtain ⟨place', rest', rfl, kindsRest⟩ := exists_first kinds
    exact .inr ⟨_, _, place', rest, rest', rfl, rfl, spellable.tail, kindsRest, assigns⟩

theorem Extends.cons {token token' : Token} (shared : Extends ext (token :: ts) (token' :: ts')) :
    token.kind = token'.kind ∧ Extends ext ts ts' := by
  obtain ⟨nothing, -⟩ | ⟨k, _, _, _, _, first, first', behind⟩ := shared.cases
  · cases nothing
  · cases first
    cases first'
    exact ⟨rfl, behind⟩

/-- A mark that is no equals sign comes first in both or in neither. -/
theorem Extends.takeMark? (shared : Extends ext ts ts') {sign : Mark} (other : sign ≠ .assign) :
    (takeMark? sign ts = none ∧ takeMark? sign ts' = none) ∨
      ∃ rest rest', takeMark? sign ts = some rest ∧ takeMark? sign ts' = some rest' ∧
        Extends ext rest rest' := by
  obtain ⟨rfl, rfl | ⟨_, _, rfl⟩⟩ | ⟨k, _, _, rest, rest', rfl, rfl, behind⟩ := shared.cases
  · exact .inl ⟨rfl, rfl⟩
  · exact .inl ⟨rfl, if_neg fun same => other (TokenKind.mark.inj same).symm⟩
  · by_cases same : k = .mark sign
    · exact .inr ⟨rest, rest', if_pos same, if_pos same, behind⟩
    · exact .inl ⟨if_neg same, if_neg same⟩

theorem Extends.expectMark {b b' : Bounds} {rest rest' : List Token} (shared : Extends ext ts ts')
    {sign : Mark} (other : sign ≠ .assign) (read : expectMark b sign ts = .ok rest)
    (read' : expectMark b' sign ts' = .ok rest') : Extends ext rest rest' := by
  rw [expectMark_eq_ok] at read read'
  obtain ⟨none, -⟩ | ⟨_, _, found, found', left⟩ := shared.takeMark? other
  · cases none.symm.trans read
  · obtain rfl := Option.some.inj (found.symm.trans read)
    obtain rfl := Option.some.inj (found'.symm.trans read')
    exact left

theorem Extends.lacks (shared : Extends ext ts ts') {marks : List Mark} (other : .assign ∉ marks)
    (lacks : Lacks marks ts) : Lacks marks ts' := by
  obtain ⟨rfl, rfl | ⟨_, _, rfl⟩⟩ | ⟨k, place, _, _, _, rfl, rfl, -⟩ := shared.cases
  · exact lacks
  · rintro _ ⟨⟩ mark member same
    exact other (TokenKind.mark.inj same ▸ member)
  · rintro _ ⟨⟩
    exact lacks ⟨k, place⟩ rfl

/-- What is taken from the front of the first tokens is in front of the second ones. -/
theorem Extends.append {taken rest : List Token} (shared : Extends ext (taken ++ rest) ts') :
    ∃ taken' rest', ts' = taken' ++ rest' ∧ taken'.map (·.kind) = taken.map (·.kind) ∧
      Extends ext rest rest' := by
  obtain ⟨spellable, kinds, assigns⟩ := shared
  rw [List.map_append, List.append_assoc] at kinds
  obtain ⟨taken', rest', rfl, same, kinds⟩ := List.map_eq_append_iff.mp kinds
  exact ⟨taken', rest', rfl, same,
    fun token member => spellable token (List.mem_append_right _ member), kinds, assigns⟩

/-- What is taken from the front of the second tokens is in front of the first ones, if no equals
sign is taken. -/
theorem Extends.of_append {taken' rest' : List Token} (shared : Extends ext ts (taken' ++ rest'))
    (other : ∀ token ∈ taken', token.kind ≠ .mark .assign) :
    ∃ taken rest, ts = taken ++ rest ∧ taken.map (·.kind) = taken'.map (·.kind) ∧
      Extends ext rest rest' := by
  induction taken' generalizing ts with
  | nil => exact ⟨[], ts, rfl, rfl, shared⟩
  | cons token taken' ih =>
    rw [List.forall_mem_cons] at other
    obtain ⟨rfl, nothing | ⟨_, _, sign⟩⟩ | ⟨k, place, place', rest, _, rfl, same, behind⟩ :=
      shared.cases
    · cases nothing
    · obtain ⟨rfl, -⟩ := List.cons.inj sign
      exact absurd rfl other.1
    · obtain ⟨rfl, rfl⟩ := List.cons.inj same
      obtain ⟨taken, left, rfl, kinds, shorter⟩ := ih behind other.2
      exact ⟨⟨k, place⟩ :: taken, left, rfl, by simp [kinds], shorter⟩

end Tokens

variable {α β : Type} {inside : Prop} {ext : List TokenKind} {view : α → β}

/-- Both readers answer the same, up to a view, and leave the same. Readers that an equals sign
would continue do so only inside of something, where the first tokens are not over. -/
def Agrees (inside : Prop) (ext : List TokenKind) (view : α → β) (read read' : Parser α) : Prop :=
  ∀ ts ts' x x' rest rest', Extends ext ts ts' → read ts = .ok (x, rest) →
    read' ts' = .ok (x', rest') → (inside → rest = [] → ext = []) →
    view x = view x' ∧ Extends ext rest rest'

/-- Both steps end a repetition, or both go on alike. -/
inductive Alike (ext : List TokenKind) (view : α → β) :
    Option (α × List Token) → Option (α × List Token) → Prop
  | ended : Alike ext view none none
  | next {x x' : α} {rest rest' : List Token} (same : view x = view x')
    (left : Extends ext rest rest') : Alike ext view (some (x, rest)) (some (x', rest'))

section Repetitions

/-- Repetitions agree whose steps agree. -/
theorem iterate_agrees {step step' : α → List Token → Except Error (Option (α × List Token))}
    (halts : inside → ∀ x, step x [] = .ok none)
    (each : ∀ x x' ts ts' o o', view x = view x' → Extends ext ts ts' → step x ts = .ok o →
      step' x' ts' = .ok o' → (∀ y, o = some (y, []) → inside → ext = []) → Alike ext view o o')
    {x x' y y' : α} {ts ts' rest rest' : List Token} (same : view x = view x')
    (shared : Extends ext ts ts') (read : iterate step x ts = .ok (y, rest))
    (read' : iterate step' x' ts' = .ok (y', rest')) (ends : inside → rest = [] → ext = []) :
    view y = view y' ∧ Extends ext rest rest' := by
  induction lengths : ts.length using Nat.strong_induction_on generalizing x x' ts ts' with
  | _ n ih =>
    obtain ⟨stop, rfl, rfl⟩ | ⟨next, after, go, further⟩ := iterate_cases read
    · obtain ⟨-, rfl, rfl⟩ | ⟨next', after', go', -⟩ := iterate_cases read'
      · exact ⟨same, shared⟩
      · cases each _ _ _ _ _ _ same shared stop go' nofun
    · have last : ∀ y, some (next, after) = some (y, []) → inside → ext = [] := by
        rintro _ ⟨⟩ within
        split at further
        · obtain ⟨-, -, rfl⟩ | ⟨_, _, go, -⟩ := iterate_cases further
          · exact ends within rfl
          · rw [halts within] at go
            cases go
        · exact ends within further.2
      obtain ⟨stop', -, -⟩ | ⟨next', after', go', further'⟩ := iterate_cases read'
      · cases each _ _ _ _ _ _ same shared go stop' last
      · cases each _ _ _ _ _ _ same shared go go' last with
        | next sameNext behind =>
          have shorter : after'.length < ts'.length ↔ after.length < ts.length := by
            rw [behind.length_eq, shared.length_eq]
            omega
          rw [if_congr shorter rfl rfl] at further'
          split at further
          · next less =>
            rw [if_pos less] at further'
            exact ih _ (lengths ▸ less) sameNext behind further further' rfl
          · next more =>
            rw [if_neg more] at further'
            obtain ⟨⟨rfl, rfl⟩, rfl, rfl⟩ := And.intro further further'
            exact ⟨sameNext, behind⟩

theorem separatedStep_agrees {item item' : Parser α} (each : Agrees inside ext view item item')
    {xs xs' : List α} {ts ts' : List Token} {o o' : Option (List α × List Token)}
    (same : xs.map view = xs'.map view) (shared : Extends ext ts ts')
    (step : separatedStep (takeMark? .comma) item xs ts = .ok o)
    (step' : separatedStep (takeMark? .comma) item' xs' ts' = .ok o')
    (ends : ∀ y, o = some (y, []) → inside → ext = []) : Alike ext (List.map view) o o' := by
  unfold separatedStep at step step'
  obtain ⟨none, none'⟩ | ⟨_, _, comma, comma', left⟩ :=
    shared.takeMark? (by decide : Mark.comma ≠ .assign)
  · simp only [none] at step
    simp only [none'] at step'
    cases step
    cases step'
    exact .ended
  · simp only [comma, bind_eq_ok, pure_eq_ok] at step
    simp only [comma', bind_eq_ok, pure_eq_ok] at step'
    obtain ⟨⟨x, rest⟩, one, rfl⟩ := step
    obtain ⟨⟨x', rest'⟩, one', rfl⟩ := step'
    obtain ⟨sameItem, behind⟩ := each _ _ _ _ _ _ left one one'
      fun within none => ends _ (by rw [none]) within
    exact .next (by simp [same, sameItem]) behind

theorem separated_agrees {item item' : Parser α} (each : Agrees inside ext view item item') :
    Agrees inside ext (List.map view) (separated (takeMark? .comma) item)
      (separated (takeMark? .comma) item') := by
  intro ts ts' xs xs' rest rest' shared read read' ends
  simp only [separated_eq, bind_eq_ok] at read read'
  obtain ⟨⟨first, behind⟩, one, read⟩ := read
  obtain ⟨⟨first', behind'⟩, one', read'⟩ := read'
  obtain ⟨same, shared⟩ := each _ _ _ _ _ _ shared one one' fun within none => by
    subst none
    obtain ⟨-, -, rfl⟩ | ⟨_, _, go, -⟩ := iterate_cases read
    · exact ends within rfl
    · cases go
  exact iterate_agrees (fun _ _ => rfl) (fun _ _ _ _ _ _ => separatedStep_agrees each)
    (by simpa using same) shared read read' ends

end Repetitions

section Types
variable {b b' : Bounds} {levels levels' : Nat} {ts ts' : List Token}

theorem Extends.spellable_left (shared : Extends ext ts ts') : AllSpellable ts := by
  intro token member
  have listed : token.kind ∈ ts'.map (·.kind) := by
    rw [shared.kinds]
    exact List.mem_append_left _ (List.mem_map_of_mem member)
  obtain ⟨token', member', same⟩ := List.mem_map.mp listed
  exact same ▸ shared.spellable token' member'

theorem readTypeArgs_agrees :
    Agrees False ext id (readTypeArgs b (readTypeExpr b levels))
      (readTypeArgs b' (readTypeExpr b' levels')) := by
  intro ts ts' args args' rest rest' shared read read' _
  obtain ⟨each, behind, taken, rfl, spelled⟩ := (readTypeArgs_eq_ok shared.spellable_left).mp read
  obtain ⟨taken', left, rfl, kinds, shorter⟩ := shared.append
  obtain ⟨rfl, rfl, -⟩ := readTypeArgs_unique shared.spellable (kinds.trans spelled)
    (fun t member => (each t member).1) (fun none => shorter.lacks (by decide) (behind none)) read'
  exact ⟨rfl, shorter⟩

theorem Extends.startsOperand (shared : Extends ext ts ts') :
    startsOperand ts' = startsOperand ts := by
  obtain ⟨rfl, rfl | ⟨_, _, rfl⟩⟩ | ⟨k, place, place', rest, rest', rfl, rfl, -⟩ := shared.cases
  all_goals rfl

variable (b') in
/-- A cast to a type that fits into the levels is read in the second tokens as in the first. -/
theorem readCastType?_shared {t : TypeExpr} {rest : List Token} (shared : Extends ext ts ts')
    (read : readCastType? (readTypeExpr b levels) ts = some (t, rest)) (fits : t.depth ≤ levels') :
    ∃ rest', readCastType? (readTypeExpr b' levels') ts' = some (t, rest') ∧
      Extends ext rest rest' := by
  obtain ⟨readable, -, cast, taken, rfl, spelled⟩ :=
    (readCastType?_eq_some shared.spellable_left).mp read
  obtain ⟨taken', rest', rfl, kinds, shorter⟩ := shared.append
  refine ⟨rest', (readCastType?_eq_some shared.spellable).mpr ⟨readable, fits, fun plain => ?_,
    taken', rfl, kinds.trans spelled⟩, shorter⟩
  rw [shorter.startsOperand]
  exact cast plain

/-- The other way round the type fits in any case. -/
theorem readCastType?_of_shared {t : TypeExpr} {rest' : List Token} (shared : Extends ext ts ts')
    (read' : readCastType? (readTypeExpr b' levels') ts' = some (t, rest'))
    (fits : levels' ≤ levels) :
    ∃ rest, readCastType? (readTypeExpr b levels) ts = some (t, rest) ∧ Extends ext rest rest' := by
  obtain ⟨readable, shallow, cast, taken', rfl, spelled⟩ :=
    (readCastType?_eq_some shared.spellable).mp read'
  have other : ∀ token ∈ taken', token.kind ≠ .mark .assign := by
    intro token member same
    have listed := List.mem_map_of_mem (f := (·.kind)) member
    rw [spelled, same, parenthesize, List.mem_cons, List.mem_append, List.mem_singleton] at listed
    rcases listed with opening | inside | closing
    · cases opening
    · cases readable.inType_tokens _ inside
    · cases closing
  obtain ⟨taken, rest, rfl, kinds, shorter⟩ := shared.of_append other
  refine ⟨rest, (readCastType?_eq_some shared.spellable_left).mpr ⟨readable, shallow.trans fits,
    fun plain => ?_, taken, rfl, kinds.trans spelled⟩, shorter⟩
  rw [← shorter.startsOperand]
  exact cast plain

end Types

section Operands
variable {b b' : Bounds} {levels levels' : Nat} {type type' : Parser TypeExpr}
  {expr expr' unary unary' operand operand' : Parser Expr}

/-- Arguments are passed in the same way. -/
theorem readArgument_shared {ts ts' : List Token} (shared : Extends ext ts ts') :
    ∃ passing behind behind', Extends ext behind behind' ∧
      (∀ expr, readArgument expr ts = do
        let (value, rest) ← expr behind
        return ((passing, value), rest)) ∧
      ∀ expr, readArgument expr ts' = do
        let (value, rest) ← expr behind'
        return ((passing, value), rest) := by
  obtain ⟨rfl, rfl | ⟨_, _, rfl⟩⟩ | ⟨k, place, place', behind, behind', rfl, rfl, shorter⟩ :=
    shared.cases
  · exact ⟨.value, _, _, shared, fun _ => rfl, fun _ => rfl⟩
  · exact ⟨.value, _, _, shared, fun _ => rfl, fun _ => rfl⟩
  · cases k with
    | keyword word =>
      cases word with
      | ref | out => exact ⟨_, behind, behind', shorter, fun _ => rfl, fun _ => rfl⟩
      | _ => exact ⟨.value, _, _, shared, fun _ => rfl, fun _ => rfl⟩
    | _ => exact ⟨.value, _, _, shared, fun _ => rfl, fun _ => rfl⟩

theorem readArgument_agrees (each : Agrees inside ext Expr.bare expr expr') :
    Agrees inside ext (Prod.map id Expr.bare) (readArgument expr) (readArgument expr') := by
  intro ts ts' x x' rest rest' shared read read' ends
  obtain ⟨passing, behind, behind', shorter, eq, eq'⟩ := readArgument_shared shared
  rw [eq] at read
  rw [eq'] at read'
  simp only [bind_eq_ok, pure_eq_ok, Prod.mk.injEq] at read read'
  obtain ⟨⟨value, _⟩, one, rfl, rfl⟩ := read
  obtain ⟨⟨value', _⟩, one', rfl, rfl⟩ := read'
  obtain ⟨same, left⟩ := each _ _ _ _ _ _ shorter one one' ends
  exact ⟨by rw [Prod.map_apply, Prod.map_apply, same], left⟩

theorem readArgumentList_agrees (each : Agrees True ext Expr.bare expr expr') :
    Agrees False ext (List.map (Prod.map id Expr.bare)) (readArgumentList b expr)
      (readArgumentList b' expr') := by
  intro ts ts' args args' rest rest' shared read read' _
  unfold readArgumentList at read read'
  obtain ⟨none, none'⟩ | ⟨_, _, close, close', left⟩ :=
    shared.takeMark? (by decide : Mark.closeParen ≠ .assign)
  · simp only [none, bind_eq_ok, pure_eq_ok, Prod.mk.injEq] at read
    simp only [none', bind_eq_ok, pure_eq_ok, Prod.mk.injEq] at read'
    obtain ⟨⟨items, behind⟩, one, after, closed, rfl, rfl⟩ := read
    obtain ⟨⟨items', behind'⟩, one', after', closed', rfl, rfl⟩ := read'
    obtain ⟨same, left⟩ := separated_agrees (readArgument_agrees each) _ _ _ _ _ _ shared one one'
      fun _ none => by subst none; cases closed
    exact ⟨same, left.expectMark (by decide) closed closed'⟩
  · simp only [close] at read
    simp only [close'] at read'
    cases read
    cases read'
    exact ⟨rfl, left⟩

theorem readAtom_agrees (types : Agrees False ext id (readTypeArgs b type) (readTypeArgs b' type'))
    (each : Agrees True ext Expr.bare expr expr') :
    Agrees False ext Expr.bare (readAtom b type expr) (readAtom b' type' expr') := by
  intro ts ts' x x' rest rest' shared read read' _
  obtain ⟨rfl, -⟩ | ⟨k, place, place', behind, behind', rfl, rfl, shorter⟩ := shared.cases
  · cases read
  cases k with
  | identifier name | address name =>
    simp only [readAtom, bind_eq_ok, pure_eq_ok, Prod.mk.injEq] at read read'
    obtain ⟨⟨args, _⟩, one, rfl, rfl⟩ := read
    obtain ⟨⟨args', _⟩, one', rfl, rfl⟩ := read'
    obtain ⟨same, left⟩ := types _ _ _ _ _ _ shorter one one' False.elim
    obtain rfl : args = args' := same
    exact ⟨rfl, left⟩
  | global =>
    simp only [readAtom, bind_eq_ok] at read read'
    obtain ⟨after, colons, read⟩ := read
    obtain ⟨after', colons', read'⟩ := read'
    have left := shorter.expectMark (by decide) colons colons'
    obtain ⟨rfl, -⟩ | ⟨k, _, _, more, more', rfl, rfl, last⟩ := left.cases
    · cases read
    · cases k with
      | identifier name =>
        cases read
        cases read'
        exact ⟨rfl, last⟩
      | _ => cases read
  | keyword word =>
    cases word <;> cases read <;> cases read' <;> exact ⟨rfl, shorter⟩
  | typeKeyword type => cases read
  | integer value | string value =>
    cases read
    cases read'
    exact ⟨rfl, shorter⟩
  | mark sign =>
    cases sign with
    | openParen =>
      simp only [readAtom, bind_eq_ok, pure_eq_ok, Prod.mk.injEq] at read read'
      obtain ⟨⟨inner, after⟩, one, _, closed, rfl, rfl⟩ := read
      obtain ⟨⟨inner', after'⟩, one', _, closed', rfl, rfl⟩ := read'
      obtain ⟨same, left⟩ := each _ _ _ _ _ _ shorter one one' fun _ none => by
        subst none
        cases closed
      exact ⟨same, left.expectMark (by decide) closed closed'⟩
    | _ => cases read

theorem readStep_agrees (types : Agrees False ext id (readTypeArgs b type) (readTypeArgs b' type'))
    (each : Agrees True ext Expr.bare expr expr') {target target' : Expr} {ts ts' : List Token}
    {o o' : Option (Expr × List Token)} (same : target.bare = target'.bare)
    (shared : Extends ext ts ts') (step : readStep b type expr target ts = .ok o)
    (step' : readStep b' type' expr' target' ts' = .ok o') : Alike ext Expr.bare o o' := by
  obtain ⟨rfl, rfl | ⟨_, _, rfl⟩⟩ | ⟨k, place, place', behind, behind', rfl, rfl, shorter⟩ :=
    shared.cases
  · cases step
    cases step'
    exact .ended
  · cases step
    cases step'
    exact .ended
  cases k with
  | mark sign =>
    cases sign with
    | dot =>
      simp only [readStep, bind_eq_ok, pure_eq_ok] at step step'
      obtain ⟨⟨name, _⟩, named, ⟨args, _⟩, one, rfl⟩ := step
      obtain ⟨⟨name', _⟩, named', ⟨args', _⟩, one', rfl⟩ := step'
      obtain ⟨⟨_, _⟩, rfl, rfl⟩ := readName_eq_ok named
      obtain ⟨⟨_, _⟩, rfl, rfl⟩ := readName_eq_ok named'
      obtain ⟨sameName, behindName⟩ := shorter.cons
      obtain rfl := TokenKind.identifier.inj sameName
      obtain ⟨rfl, left⟩ := types _ _ _ _ _ _ behindName one one' False.elim
      exact .next (by simp only [Expr.bare, same, id]) left
    | openParen =>
      simp only [readStep, bind_eq_ok, pure_eq_ok] at step step'
      obtain ⟨⟨args, _⟩, one, rfl⟩ := step
      obtain ⟨⟨args', _⟩, one', rfl⟩ := step'
      obtain ⟨sameArgs, left⟩ :=
        readArgumentList_agrees each _ _ _ _ _ _ shorter one one' False.elim
      refine .next ?_ left
      simp only [Expr.bare, Expr.bareArgs_eq, same, sameArgs]
    | openBracket =>
      simp only [readStep, bind_eq_ok, pure_eq_ok] at step step'
      obtain ⟨⟨indices, _⟩, one, after, closed, rfl⟩ := step
      obtain ⟨⟨indices', _⟩, one', after', closed', rfl⟩ := step'
      obtain ⟨sameIndices, left⟩ := separated_agrees each _ _ _ _ _ _ shorter one one'
        fun _ none => by subst none; cases closed
      refine .next ?_ (left.expectMark (by decide) closed closed')
      simp only [Expr.bare, Expr.bareAll_eq, same, sameIndices]
    | _ =>
      cases step
      cases step'
      exact .ended
  | _ =>
    cases step
    cases step'
    exact .ended

theorem readAccess_agrees
    (types : Agrees False ext id (readTypeArgs b type) (readTypeArgs b' type'))
    (each : Agrees True ext Expr.bare expr expr') :
    Agrees False ext Expr.bare (readAccess b type expr) (readAccess b' type' expr') := by
  intro ts ts' x x' rest rest' shared read read' ends
  simp only [readAccess, bind_eq_ok] at read read'
  obtain ⟨⟨atom, behind⟩, one, read⟩ := read
  obtain ⟨⟨atom', behind'⟩, one', read'⟩ := read'
  obtain ⟨same, left⟩ := readAtom_agrees types each _ _ _ _ _ _ shared one one' False.elim
  exact iterate_agrees (fun impossible : False => impossible.elim)
    (fun _ _ _ _ _ _ same shared step step' _ => readStep_agrees types each same shared step step')
    same left read read' ends

theorem readChain_agrees {operator? : TokenKind → Option BinaryOp}
    (other : operator? (.mark .assign) = none)
    (each : Agrees False ext Expr.bare operand operand') :
    Agrees False ext Expr.bare (readChain operator? operand) (readChain operator? operand') := by
  intro ts ts' x x' rest rest' shared read read' ends
  simp only [readChain, bind_eq_ok] at read read'
  obtain ⟨⟨first, behind⟩, one, read⟩ := read
  obtain ⟨⟨first', behind'⟩, one', read'⟩ := read'
  obtain ⟨same, left⟩ := each _ _ _ _ _ _ shared one one' False.elim
  refine iterate_agrees (fun impossible : False => impossible.elim) ?_ same left read read' ends
  intro left left' ts ts' o o' same shared step step' _
  obtain ⟨rfl, rfl | ⟨_, _, rfl⟩⟩ | ⟨k, place, place', behind, behind', rfl, rfl, shorter⟩ :=
    shared.cases
  · cases step
    cases step'
    exact .ended
  · simp only [other] at step'
    cases step
    cases step'
    exact .ended
  · cases operator : operator? k with
    | none =>
      simp only [operator] at step step'
      cases step
      cases step'
      exact .ended
    | some op =>
      simp only [operator, bind_eq_ok, pure_eq_ok] at step step'
      obtain ⟨⟨right, _⟩, one, rfl⟩ := step
      obtain ⟨⟨right', _⟩, one', rfl⟩ := step'
      obtain ⟨sameRight, further⟩ := each _ _ _ _ _ _ shorter one one' False.elim
      refine .next ?_ further
      simp only [Expr.bare, same, sameRight]

theorem readFallbackBody_agrees {sum sum' right right' : Parser Expr}
    (first : Agrees False ext Expr.bare sum sum')
    (second : Agrees False ext Expr.bare right right') :
    Agrees False ext Expr.bare (readFallbackBody sum right) (readFallbackBody sum' right') := by
  intro ts ts' x x' rest rest' shared read read' ends
  simp only [readFallbackBody, bind_eq_ok] at read read'
  obtain ⟨⟨left, behind⟩, one, read⟩ := read
  obtain ⟨⟨left', behind'⟩, one', read'⟩ := read'
  obtain ⟨same, shorter⟩ := first _ _ _ _ _ _ shared one one' False.elim
  obtain ⟨none, none'⟩ | ⟨_, _, sign, sign', further⟩ :=
    shorter.takeMark? (by decide : Mark.doubleQuestion ≠ .assign)
  · simp only [none] at read
    simp only [none'] at read'
    cases read
    cases read'
    exact ⟨same, shorter⟩
  · simp only [sign, bind_eq_ok, pure_eq_ok, Prod.mk.injEq] at read
    simp only [sign', bind_eq_ok, pure_eq_ok, Prod.mk.injEq] at read'
    obtain ⟨⟨value, _⟩, two, rfl, rfl⟩ := read
    obtain ⟨⟨value', _⟩, two', rfl, rfl⟩ := read'
    obtain ⟨sameValue, last⟩ := second _ _ _ _ _ _ further two two' False.elim
    exact ⟨by simp only [Expr.bare, same, sameValue], last⟩

theorem readExprBody_agrees {coalesce coalesce' assignment assignment' : Parser Expr}
    (first : Agrees False ext Expr.bare coalesce coalesce')
    (second : Agrees True ext Expr.bare assignment assignment') :
    Agrees True ext Expr.bare (readExprBody coalesce assignment)
      (readExprBody coalesce' assignment') := by
  intro ts ts' x x' rest rest' shared read read' ends
  simp only [readExprBody, bind_eq_ok] at read read'
  obtain ⟨⟨target, behind⟩, one, read⟩ := read
  obtain ⟨⟨target', behind'⟩, one', read'⟩ := read'
  obtain ⟨same, shorter⟩ := first _ _ _ _ _ _ shared one one' False.elim
  obtain ⟨rfl, -⟩ | ⟨k, place, place', more, more', rfl, rfl, further⟩ := shorter.cases
  · cases read
    obtain rfl := ends trivial rfl
    obtain rfl : behind' = [] := List.map_eq_nil_iff.mp shorter.kinds
    cases read'
    exact ⟨same, shorter⟩
  · cases sign : assignment? k with
    | none =>
      simp only [sign] at read read'
      cases read
      cases read'
      exact ⟨same, shorter⟩
    | some op =>
      simp only [sign, bind_eq_ok, pure_eq_ok, Prod.mk.injEq] at read read'
      obtain ⟨⟨value, _⟩, two, rfl, rfl⟩ := read
      obtain ⟨⟨value', _⟩, two', rfl, rfl⟩ := read'
      obtain ⟨sameValue, last⟩ := second _ _ _ _ _ _ further two two' ends
      exact ⟨by simp only [Expr.bare, same, sameValue], last⟩

/-- Where a cast fails for want of levels only, no operand is read in its place. -/
theorem readAccess_of_deepCast {t : TypeExpr} {ts rest : List Token} {x : Expr} {left : List Token}
    (spellable : AllSpellable ts)
    (read : readCastType? (readTypeExpr b levels) ts = some (t, rest)) (deep : levels' < t.depth) :
    readAccess b' type (readExpr b' levels') ts ≠ .ok (x, left) := by
  obtain ⟨readable, -, -, taken, rfl, spelled⟩ := (readCastType?_eq_some spellable).mp read
  obtain ⟨_, behind, rfl, spelledType⟩ := exists_first spelled
  obtain ⟨written, closing, rfl, spelledWritten, spelledClosing⟩ :=
    List.map_eq_append_iff.mp spelledType
  obtain ⟨_, _, rfl, nothing⟩ := exists_first spelledClosing
  obtain rfl := List.map_eq_nil_iff.mp nothing
  intro access
  simp only [readAccess, List.cons_append, List.append_assoc, List.nil_append, readAtom,
    bind_eq_ok, pure_eq_ok] at access
  obtain ⟨_, ⟨⟨inner, after⟩, one, _, closed, -⟩, -⟩ := access
  have stops := readExpr_tooDeep (b := b') readable deep spelledWritten
    (by simpa using spellable.tail)
  obtain ⟨token, more, rfl, less⟩ := stops _ _ one
  rw [expectMark_eq_ok, takeMark?, if_neg (by rw [less]; decide)] at closed
  cases closed

theorem readOperandBody_unsigned {k : TokenKind} {place : Nat} {ts : List Token}
    (noMinus : k ≠ .mark .minus) (noPlus : k ≠ .mark .plus) :
    readOperandBody b type expr unary (⟨k, place⟩ :: ts) =
      match readCastType? type (⟨k, place⟩ :: ts) with
      | some (castType, behind) => do
        let (operand, rest) ← unary behind
        return (.cast place castType operand, rest)
      | none => readAccess b type expr (⟨k, place⟩ :: ts) := by
  unfold readOperandBody
  split
  · next same => exact absurd (Token.mk.inj (List.cons.inj same).1).1 noMinus
  · next same => exact absurd (Token.mk.inj (List.cons.inj same).1).1 noPlus
  · rfl

/-- With fewer levels a cast is read where it was, or no operand is. -/
theorem readOperandBody_agrees (fits : levels' ≤ levels)
    (each : Agrees True ext Expr.bare (readExpr b levels) (readExpr b' levels'))
    (below : Agrees False ext Expr.bare unary unary') :
    Agrees False ext Expr.bare
      (readOperandBody b (readTypeExpr b levels) (readExpr b levels) unary)
      (readOperandBody b' (readTypeExpr b' levels') (readExpr b' levels') unary') := by
  intro ts ts' x x' rest rest' shared read read' ends
  obtain ⟨rfl, -⟩ | ⟨k, place, place', behind, behind', rfl, rfl, shorter⟩ := shared.cases
  · cases read
  by_cases minus : k = .mark .minus
  · subst minus
    simp only [readOperandBody, bind_eq_ok, pure_eq_ok, Prod.mk.injEq] at read read'
    obtain ⟨⟨operand, _⟩, one, rfl, rfl⟩ := read
    obtain ⟨⟨operand', _⟩, one', rfl, rfl⟩ := read'
    obtain ⟨same, left⟩ := below _ _ _ _ _ _ shorter one one' False.elim
    exact ⟨by simp only [Expr.bare, same], left⟩
  by_cases plus : k = .mark .plus
  · subst plus
    exact below _ _ _ _ _ _ shorter read read' False.elim
  rw [readOperandBody_unsigned minus plus] at read read'
  cases cast : readCastType? (readTypeExpr b levels) (⟨k, place⟩ :: behind) with
  | none =>
    cases cast' : readCastType? (readTypeExpr b' levels') (⟨k, place'⟩ :: behind') with
    | none =>
      simp only [cast] at read
      simp only [cast'] at read'
      exact readAccess_agrees readTypeArgs_agrees each _ _ _ _ _ _ shared read read' ends
    | some found =>
      obtain ⟨_, taken, -⟩ := readCastType?_of_shared shared cast' fits
      cases cast.symm.trans taken
  | some found =>
    obtain ⟨t, operands⟩ := found
    by_cases shallow : t.depth ≤ levels'
    · obtain ⟨operands', cast', left⟩ := readCastType?_shared b' shared cast shallow
      simp only [cast, bind_eq_ok, pure_eq_ok, Prod.mk.injEq] at read
      simp only [cast', bind_eq_ok, pure_eq_ok, Prod.mk.injEq] at read'
      obtain ⟨⟨operand, _⟩, one, rfl, rfl⟩ := read
      obtain ⟨⟨operand', _⟩, one', rfl, rfl⟩ := read'
      obtain ⟨same, further⟩ := below _ _ _ _ _ _ left one one' False.elim
      exact ⟨by simp only [Expr.bare, same], further⟩
    · -- the second tokens have no levels for the type, so they are no operand at all
      obtain ⟨-, deepEnough, -⟩ := (readCastType?_eq_some shared.spellable_left).mp cast
      obtain ⟨_, castThere, -⟩ := readCastType?_shared b' shared cast deepEnough
      cases cast' : readCastType? (readTypeExpr b' levels') (⟨k, place'⟩ :: behind') with
      | none =>
        simp only [cast'] at read'
        exact absurd read'
          (readAccess_of_deepCast shared.spellable castThere (Nat.lt_of_not_le shallow))
      | some found =>
        obtain ⟨_, taken, -⟩ := readCastType?_of_shared shared cast' fits
        obtain rfl := (Prod.mk.inj (Option.some.inj (cast.symm.trans taken))).1
        exact absurd ((readCastType?_eq_some shared.spellable).mp cast').2.1 shallow

end Operands

/-- The readers of one number of levels agree with those of as many or fewer. -/
theorem levels_agree {b b' : Bounds} {levels levels' : Nat} (fits : levels' ≤ levels) :
    Agrees False ext Expr.bare (readOperand b levels) (readOperand b' levels') ∧
      Agrees False ext Expr.bare (readFallback b levels) (readFallback b' levels') ∧
      Agrees True ext Expr.bare (readExpr b levels) (readExpr b' levels') := by
  induction levels' generalizing levels with
  | zero =>
    refine ⟨?_, ?_, ?_⟩ <;> intro ts ts' x x' rest rest' _ _ read' _ <;> cases read'
  | succ levels' ih =>
    obtain ⟨levels, rfl⟩ := Nat.exists_eq_add_one_of_ne_zero (n := levels) (by omega)
    have fits : levels' ≤ levels := by omega
    obtain ⟨operand, fallback, expr⟩ := ih fits
    have body := readOperandBody_agrees fits expr operand
    rw [readOperand, readFallback, readExpr, readOperand, readFallback, readExpr]
    exact ⟨body, readFallbackBody_agrees
      (readChain_agrees rfl (readChain_agrees rfl body)) fallback,
      readExprBody_agrees fallback expr⟩

theorem parse_eq_ok {text : String} {maxDepth : Nat} {e : Expr} : parse text maxDepth = .ok e ↔
    ∃ scanned, scan text = .ok scanned ∧
      readExpr ⟨scanned.stop, maxDepth⟩ maxDepth scanned.tokens = .ok (e, []) := by
  simp only [parse, bind_eq_ok]
  refine exists_congr fun scanned => and_congr_right fun _ => ?_
  constructor
  · rintro ⟨⟨found, rest⟩, read, whole⟩
    split at whole
    next same =>
      cases same
      cases whole
      exact read
    · cases whole
  · exact fun read => ⟨_, read, rfl⟩

end DebugExpr.Source
