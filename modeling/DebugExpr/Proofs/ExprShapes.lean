import DebugExpr.Proofs.TypeReading

/-! Shapes of printed expressions: with what they begin, and that none of them could be taken for a
type in parentheses. What stands in parentheses there is looser than a primary expression, and the
first of its tokens that no type holds does not close them. -/
namespace DebugExpr.Source
open Metadata Parsing

/-- A text is scanned as the name. -/
def IsMemberName (name : String) : Prop :=
  ∃ text, Lexes text (.identifier name)

/-- A text is scanned as the name or the raw address. -/
def IsSimpleName (name : String) : Prop :=
  ∃ text, Lexes text (.identifier name) ∨ Lexes text (.address name)

/-- Expressions that can be written: their names and types are scanned and read, and something
stands between the brackets of an index. -/
inductive Expr.Writable : Expr → Prop
  | name {position : Nat} {name : String} {typeArgs : List TypeExpr} (simple : IsSimpleName name)
      (types : ∀ t ∈ typeArgs, t.Parsed) : Writable (.name position name typeArgs)
  | global {position : Nat} {name : String} (isName : IsMemberName name) :
      Writable (.global position name)
  | literal {position : Nat} {value : Literal} : Writable (.literal position value)
  | this {position : Nat} : Writable (.this position)
  | member {position : Nat} {target : Expr} {name : String} {typeArgs : List TypeExpr}
      (ofTarget : Writable target) (isName : IsMemberName name) (types : ∀ t ∈ typeArgs, t.Parsed) :
      Writable (.member position target name typeArgs)
  | invoke {position : Nat} {target : Expr} {args : List (Passing × Expr)}
      (ofTarget : Writable target) (ofArgs : ∀ arg ∈ args, Writable arg.2) :
      Writable (.invoke position target args)
  | index {position : Nat} {target : Expr} {indices : List Expr} (ofTarget : Writable target)
      (nonempty : indices ≠ []) (ofIndices : ∀ i ∈ indices, Writable i) :
      Writable (.index position target indices)
  | cast {position : Nat} {type : TypeExpr} {operand : Expr} (parsed : type.Parsed)
      (ofOperand : Writable operand) : Writable (.cast position type operand)
  | negate {position : Nat} {operand : Expr} (ofOperand : Writable operand) :
      Writable (.negate position operand)
  | binary {position : Nat} {op : BinaryOp} {left right : Expr} (ofLeft : Writable left)
      (ofRight : Writable right) : Writable (.binary position op left right)
  | coalesce {position : Nat} {left right : Expr} (ofLeft : Writable left)
      (ofRight : Writable right) : Writable (.coalesce position left right)
  | assign {position : Nat} {target : Expr} {op : Option BinaryOp} {value : Expr}
      (ofTarget : Writable target) (ofValue : Writable value) :
      Writable (.assign position target op value)

theorem isMemberName_iff {name : String} : IsMemberName name ↔ IsName name.toList := by
  constructor
  · rintro ⟨text, lexes⟩
    exact lexes.spellable
  · exact fun isName => ⟨_, lexes_spell isName (by simp)⟩

theorem IsMemberName.isSimple {name : String} (isMember : IsMemberName name) :
    IsSimpleName name := by
  obtain ⟨text, lexes⟩ := isMember
  exact ⟨text, .inl lexes⟩

/-- A name begins with no at sign, and an address with one. -/
theorem spellable_nameToken {name : String} (simple : IsSimpleName name) :
    (nameToken name).Spellable := by
  obtain ⟨text, lexes | lexes⟩ := simple
  · obtain ⟨c, rest, split, start, all⟩ := lexes.spellable
    have other : c ≠ '@' := ne_of_isNameStart start (by decide)
    rw [nameToken, if_neg (by simpa [split] using other)]
    exact ⟨c, rest, split, start, all⟩
  · obtain ⟨x, rest, split, sign, all⟩ := lexes.spellable
    rw [nameToken, if_pos (by rw [split]; rfl)]
    exact ⟨x, rest, split, sign, all⟩

section Scanned

theorem scannable_nameToken {name : String} (simple : IsSimpleName name) :
    Scannable [nameToken name] := by
  refine .single (spellable_nameToken simple) ?_
  unfold nameToken
  split <;> simp

theorem Scannable.parenthesize {kinds : List TokenKind} (inner : Scannable kinds) :
    Scannable (parenthesize kinds) :=
  .cons (.mark (by decide)) (.append inner (.mark (by decide)))

theorem Scannable.placed {kinds : List TokenKind} (inner : Scannable kinds) (tier : Nat)
    (e : Expr) : Scannable (e.placed tier kinds) := by
  unfold Expr.placed
  split
  · exact inner.parenthesize
  · exact inner

theorem Scannable.placedUnderCast {kinds : List TokenKind} (inner : Scannable kinds) (e : Expr) :
    Scannable (e.placedUnderCast kinds) := by
  unfold Expr.placedUnderCast
  split
  · exact inner.parenthesize
  · exact inner.placed 4 e

theorem scannable_types {args : List TypeExpr} (types : ∀ t ∈ args, t.Parsed) :
    Scannable (TypeExpr.argTokens args) :=
  TypeExpr.scannable_argTokens fun t member => (types t member).readable.scannable

/-- The tokens of an expression are scanned back. -/
theorem Expr.Writable.scannable {e : Expr} (writable : e.Writable) : Scannable e.tokens := by
  induction writable with
  | @name _ name typeArgs simple types =>
    exact .cons (scannable_nameToken simple) (scannable_types types)
  | @global _ name isName =>
    change Scannable ([.global, .mark .doubleColon] ++ [.identifier name])
    exact .append .global (.single (isMemberName_iff.mp isName) (by simp))
  | @literal _ value =>
    cases value with
    | null => exact .single trivial (by decide)
    | bool value => cases value <;> exact .single trivial (by decide)
    | integer value => exact .single trivial ⟨nofun, nofun⟩
    | string value => exact .single trivial ⟨nofun, nofun⟩
  | this => exact .single trivial (by decide)
  | @member _ target name typeArgs _ isName types ih =>
    exact .append (ih.placed 5 target) (.cons (.mark (by decide))
      (.cons (.single (isMemberName_iff.mp isName) (by simp))
        (scannable_types types)))
  | @invoke _ target args _ _ ih ihArgs =>
    rw [tokens_invoke]
    refine .append (ih.placed 5 target) (.parenthesize (.intercalate (by decide) ?_))
    refine List.forall_mem_map.mpr fun arg member => .append ?_ (ihArgs arg member)
    cases arg.1 with
    | value => exact .nil
    | ref | out => exact .single trivial (by decide)
  | @index _ target indices _ _ _ ih ihIndices =>
    rw [tokens_index]
    exact .append (ih.placed 5 target) (.cons (.mark (by decide))
      (.append (.intercalate (by decide) (List.forall_mem_map.mpr ihIndices)) (.mark (by decide))))
  | @cast _ type operand parsed _ ih =>
    exact .append parsed.readable.scannable.parenthesize (ih.placedUnderCast operand)
  | @negate _ operand _ ih =>
    exact .cons (.mark (by decide)) (ih.placed 4 operand)
  | @binary _ op left right _ _ ihLeft ihRight =>
    refine .append (ihLeft.placed op.tier left) (.cons (.mark ?_)
      (ihRight.placed (op.tier + 1) right))
    cases op <;> decide
  | @coalesce _ left right _ _ ihLeft ihRight =>
    exact .append (ihLeft.placed 2 left) (.cons
      (.mark (by decide)) (ihRight.placed 1 right))
  | @assign _ target op value _ _ ihTarget ihValue =>
    refine .append (ihTarget.placed 1 target) (.cons
      (.mark ?_) ihValue)
    rcases op with _ | op
    · decide
    · cases op <;> decide

end Scanned

/-- The first token that is of no type. -/
def firstOther (kinds : List TokenKind) : Option TokenKind :=
  kinds.find? (!inType ·)

/-- A token other than a closing parenthesis comes first among those that are of no type. -/
def Loose (kinds : List TokenKind) : Prop :=
  ∃ k, firstOther kinds = some k ∧ k ≠ .mark .closeParen

/-- No closing parenthesis comes first among the tokens that are of no type. -/
def Clear (kinds : List TokenKind) : Prop :=
  firstOther kinds ≠ some (.mark .closeParen)

/-- The tokens begin with one that can begin an operand or with a sign. -/
def Begun (kinds : List TokenKind) : Prop :=
  ∃ k more, kinds = k :: more ∧ (startsOperand [⟨k, 0⟩] = true ∨ k = .mark .minus)

/-- The tokens begin an operand, and not with a type in parentheses. -/
def Plain (kinds : List TokenKind) : Prop :=
  ∃ k more, kinds = k :: more ∧ startsOperand [⟨k, 0⟩] = true ∧ (k = .mark .openParen → Loose more)

section Shapes
variable {first second kinds : List TokenKind} {k : TokenKind}

theorem firstOther_append :
    firstOther (first ++ second) = (firstOther first).or (firstOther second) :=
  List.find?_append

theorem Loose.clear (loose : Loose kinds) : Clear kinds := by
  obtain ⟨k, found, other⟩ := loose
  rw [Clear, found]
  exact fun same => other (Option.some.inj same)

theorem Loose.append (loose : Loose first) (second : List TokenKind) : Loose (first ++ second) := by
  obtain ⟨k, found, other⟩ := loose
  exact ⟨k, by rw [firstOther_append, found, Option.some_or], other⟩

theorem Clear.append (clear : Clear first) (more : Clear second) : Clear (first ++ second) := by
  rw [Clear, firstOther_append]
  cases found : firstOther first with
  | none => exact more
  | some k => exact fun same => clear (found.trans same)

theorem Clear.append_loose (clear : Clear first) (loose : Loose second) :
    Loose (first ++ second) := by
  obtain ⟨k, found, other⟩ := loose
  cases none : firstOther first with
  | none => exact ⟨k, by rw [firstOther_append, none, Option.none_or, found], other⟩
  | some l =>
    refine Loose.append ⟨l, none, fun same => clear ?_⟩ second
    rw [none, same]

theorem loose_cons (outside : inType k = false) (other : k ≠ .mark .closeParen)
    (more : List TokenKind) : Loose (k :: more) :=
  ⟨k, List.find?_cons_of_pos (by simp [outside]), other⟩

theorem clear_of_inType (inside : ∀ k ∈ kinds, inType k = true) : Clear kinds := by
  have none : firstOther kinds = none := List.find?_eq_none.mpr (by simpa using inside)
  rw [Clear, none]
  exact nofun

theorem clear_single (other : k ≠ .mark .closeParen) : Clear [k] := by
  cases inside : inType k with
  | true => exact clear_of_inType (by simpa using inside)
  | false => exact (loose_cons inside other []).clear

theorem Clear.cons (other : k ≠ .mark .closeParen) (more : Clear kinds) : Clear (k :: kinds) :=
  .append (clear_single other) more

theorem clear_intercalate {sign : Mark} (other : sign ≠ .closeParen) {items : List (List TokenKind)}
    (each : ∀ item ∈ items, Clear item) : Clear ([.mark sign].intercalate items) :=
  intercalate_induction nofun (fun _ _ => Clear.append)
    (clear_single fun same => other (TokenKind.mark.inj same)) each

theorem loose_parenthesize : Loose (parenthesize kinds) :=
  loose_cons rfl (by decide) _

theorem Begun.append (begun : Begun first) (second : List TokenKind) : Begun (first ++ second) := by
  obtain ⟨k, more, rfl, starts⟩ := begun
  exact ⟨k, more ++ second, rfl, starts⟩

theorem Plain.begun (plain : Plain kinds) : Begun kinds := by
  obtain ⟨k, more, split, starts, -⟩ := plain
  exact ⟨k, more, split, .inl starts⟩

theorem Plain.append (plain : Plain first) (second : List TokenKind) : Plain (first ++ second) := by
  obtain ⟨k, more, rfl, starts, loose⟩ := plain
  exact ⟨k, more ++ second, rfl, starts, fun paren => (loose paren).append second⟩

theorem plain_cons (starts : startsOperand [⟨k, 0⟩] = true) (other : k ≠ .mark .openParen)
    (more : List TokenKind) : Plain (k :: more) :=
  ⟨k, more, rfl, starts, fun paren => absurd paren other⟩

theorem plain_parenthesize (loose : Loose kinds) : Plain (parenthesize kinds) :=
  ⟨_, _, rfl, rfl, fun _ => loose.append _⟩

end Shapes

/-- What holds of the tokens of an expression of a tier. -/
structure Shaped (tier : Nat) (kinds : List TokenKind) : Prop where
  clear : Clear kinds
  begun : Begun kinds
  plain : tier = 5 → Plain kinds
  loose : tier < 5 → Loose kinds

namespace Shaped
variable {tier : Nat} {first second kinds : List TokenKind}

theorem ofPlain (plain : Plain kinds) (clear : Clear kinds) : Shaped 5 kinds :=
  ⟨clear, plain.begun, fun _ => plain, fun less => absurd less (Nat.lt_irrefl 5)⟩

theorem ofLoose (less : tier < 5) (begun : Begun kinds) (loose : Loose kinds) :
    Shaped tier kinds :=
  ⟨loose.clear, begun, fun same => absurd same (Nat.ne_of_lt less), fun _ => loose⟩

theorem leaf {k : TokenKind} (starts : startsOperand [⟨k, 0⟩] = true)
    (opens : k ≠ .mark .openParen) (closes : k ≠ .mark .closeParen) : Shaped 5 [k] :=
  ofPlain (plain_cons starts opens []) (clear_single closes)

variable {e : Expr}

theorem placed_begun (shaped : Shaped e.tier kinds) : Begun (e.placed tier kinds) := by
  unfold Expr.placed
  split
  · exact ⟨_, _, rfl, .inl rfl⟩
  · exact shaped.begun

theorem placed_clear (shaped : Shaped e.tier kinds) : Clear (e.placed tier kinds) := by
  unfold Expr.placed
  split
  · exact loose_parenthesize.clear
  · exact shaped.clear

theorem placed_plain (shaped : Shaped e.tier kinds) : Plain (e.placed 5 kinds) := by
  unfold Expr.placed
  split
  · next less => exact plain_parenthesize (shaped.loose less)
  · next most => exact shaped.plain (by have := e.tier_le; omega)

/-- What stands below a cast begins with no sign. -/
theorem underCast_starts (shaped : Shaped e.tier e.tokens) :
    ∃ k more, e.placedUnderCast e.tokens = k :: more ∧ startsOperand [⟨k, 0⟩] = true := by
  unfold Expr.placedUnderCast Expr.placed
  split
  · exact ⟨_, _, rfl, rfl⟩
  split
  · exact ⟨_, _, rfl, rfl⟩
  · next negation tight =>
    by_cases primary : e.tier = 5
    · obtain ⟨k, more, split, starts, -⟩ := shaped.plain primary
      exact ⟨k, more, split, starts⟩
    · cases e with
      | cast => exact ⟨_, _, rfl, rfl⟩
      | negate => exact absurd rfl negation
      | binary _ op => cases op <;> simp [Expr.tier, BinaryOp.tier] at tight
      | _ => simp [Expr.tier] at primary tight

end Shaped

theorem TypeExpr.clear_argTokens {args : List TypeExpr} (each : ∀ t ∈ args, Clear t.tokens) :
    Clear (argTokens args) := by
  cases args with
  | nil => exact nofun
  | cons first more =>
    exact .cons (by nofun)
      (.append (clear_intercalate (by decide) (List.forall_mem_map.mpr each)) (clear_single nofun))

theorem TypeExpr.Readable.clear {t : TypeExpr} (readable : t.Readable) : Clear t.tokens := by
  induction readable with
  | keyword word => exact clear_single nofun
  | @named isGlobal segments nonempty names first args ih =>
    rw [tokens_named]
    refine .append ?_ (clear_intercalate (by decide) (List.forall_mem_map.mpr fun s member => ?_))
    · cases isGlobal <;> exact nofun
    · exact .cons (by nofun)
        (clear_argTokens (ih s member))
  | nullable head readable ih => exact ih.append (clear_single nofun)
  | @array element rank positive readable ih =>
    refine ih.append (.cons (by nofun)
      (.append (clear_of_inType fun k member => ?_) (clear_single nofun)))
    rw [List.eq_of_mem_replicate member]
    rfl

theorem clear_types {args : List TypeExpr} (types : ∀ t ∈ args, t.Parsed) :
    Clear (TypeExpr.argTokens args) :=
  TypeExpr.clear_argTokens fun t member => (types t member).readable.clear

theorem Expr.Writable.shaped {e : Expr} (writable : e.Writable) : Shaped e.tier e.tokens := by
  induction writable with
  | @name _ name typeArgs simple types =>
    refine .ofPlain ?_ (.cons ?_ (clear_types types))
    · refine plain_cons ?_ ?_ _ <;> unfold nameToken <;> split <;> first | rfl | rintro ⟨⟩
    · unfold nameToken
      split <;> rintro ⟨⟩
  | global isName => exact .ofPlain (plain_cons rfl (by rintro ⟨⟩) _) (by rintro ⟨⟩)
  | @literal _ value =>
    cases value with
    | bool value => cases value <;> exact .leaf rfl (by rintro ⟨⟩) (by rintro ⟨⟩)
    | null | integer _ | string _ => exact .leaf rfl (by rintro ⟨⟩) (by rintro ⟨⟩)
  | this => exact .leaf rfl (by rintro ⟨⟩) (by rintro ⟨⟩)
  | @member _ target name typeArgs _ isName types ih =>
    exact .ofPlain (ih.placed_plain.append _) (ih.placed_clear.append
      (.cons (by rintro ⟨⟩) (.cons (by rintro ⟨⟩) (clear_types types))))
  | @invoke _ target args _ _ ih ihArgs =>
    rw [tokens_invoke]
    exact .ofPlain (ih.placed_plain.append _)
      (ih.placed_clear.append_loose loose_parenthesize).clear
  | @index _ target indices _ _ _ ih ihIndices =>
    rw [tokens_index]
    refine .ofPlain (ih.placed_plain.append _) (ih.placed_clear.append ?_)
    refine .cons (by rintro ⟨⟩)
      (.append (clear_intercalate (by decide) ?_) (clear_single (by rintro ⟨⟩)))
    exact List.forall_mem_map.mpr fun i member => (ihIndices i member).clear
  | cast parsed _ ih =>
    exact .ofLoose (by simp [tier]) ⟨_, _, rfl, .inl rfl⟩ (loose_parenthesize.append _)
  | negate _ ih =>
    exact .ofLoose (by simp [tier]) ⟨_, _, rfl, .inr rfl⟩ (loose_cons rfl (by rintro ⟨⟩) _)
  | @binary _ op _ _ _ _ ihLeft ihRight =>
    refine .ofLoose ?_ (ihLeft.placed_begun.append _)
      (ihLeft.placed_clear.append_loose (loose_cons ?_ (by cases op <;> rintro ⟨⟩) _))
    · cases op <;> simp [tier, BinaryOp.tier]
    · cases op <;> rfl
  | coalesce _ _ ihLeft ihRight =>
    exact .ofLoose (by simp [tier]) (ihLeft.placed_begun.append _)
      (ihLeft.placed_clear.append_loose (loose_cons rfl (by rintro ⟨⟩) _))
  | @assign _ _ op _ _ _ ihTarget ihValue =>
    have outside : inType (.mark (BinaryOp.assignMark op)) = false := by
      rcases op with _ | op
      · rfl
      · cases op <;> rfl
    exact .ofLoose (by simp [tier]) (ihTarget.placed_begun.append _)
      (ihTarget.placed_clear.append_loose (loose_cons outside (by
        rcases op with _ | op
        · rintro ⟨⟩
        · cases op <;> rintro ⟨⟩) _))

end DebugExpr.Source
