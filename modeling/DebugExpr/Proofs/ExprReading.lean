import DebugExpr.Proofs.ExprTiers

/-! Reading of expressions as they are printed. Each node is read back by the reader of its own tier
if its parts are, and the whole expression by induction. -/
namespace DebugExpr.Source
open Metadata Parsing

section Nodes
variable {b : Bounds} {first second kinds : List TokenKind} {left right operand : Expr}
  {position d d' : Nat}

theorem binds_binary {op : BinaryOp} (ofLeft : Binds b op.tier d first left)
    (ofRight : Binds b (op.tier + 1) d' second right) :
    Binds b op.tier (max d d') (first ++ .mark op.mark :: second)
      (.binary position op left right) := by
  refine .ofOpens (by cases op <;> simp [BinaryOp.tier]) fun n fits ts rest spelled ends => ?_
  obtain ⟨ls, place, rs, spelledLeft, spelledRight, split⟩ := exists_around spelled
  obtain ⟨l, sameLeft, readLeft⟩ := ofLeft.opens (by cases op <;> simp [BinaryOp.tier]) n (by omega)
    ls (⟨.mark op.mark, place⟩ :: (rs ++ rest)) spelledLeft
    (ends_of_kind rfl (by cases op <;> rfl))
  obtain ⟨r, sameRight, readRight⟩ := ofRight.reads n (by omega) rs rest spelledRight ends
  refine ⟨.binary l.position op l r, by simp only [Expr.bare, sameLeft, sameRight], ?_⟩
  have shorter : rest.length < (⟨.mark op.mark, place⟩ :: (rs ++ rest) : List Token).length := by
    simp only [List.length_cons, List.length_append]
    omega
  rw [split, readLeft]
  cases op with
  | add | subtract | multiply | divide =>
    refine iterate_step ?_ shorter
    exact congrArg (· >>= _) readRight

theorem binds_coalesce (ofLeft : Binds b 2 d first left) (ofRight : Binds b 1 d' second right) :
    Binds b 1 (max d (d' + 1)) (first ++ .mark .doubleQuestion :: second)
      (.coalesce position left right) := by
  refine .ofReads (by omega) fun n fits ts rest spelled ends => ?_
  obtain ⟨ls, place, rs, spelledLeft, spelledRight, split⟩ := exists_around spelled
  obtain ⟨m, rfl⟩ := Nat.exists_eq_add_one_of_ne_zero (n := n) (by omega)
  obtain ⟨l, sameLeft, readLeft⟩ := (ofLeft.reads (m + 1) (by omega)).opens (by omega) (by omega)
    ls (⟨.mark .doubleQuestion, place⟩ :: (rs ++ rest)) spelledLeft (ends_of_kind rfl rfl)
  obtain ⟨r, sameRight, readRight⟩ := ofRight.reads m (by omega) rs rest spelledRight ends
  refine ⟨.coalesce l.position l r, by simp only [Expr.bare, sameLeft, sameRight], ?_⟩
  rw [split, readLeft]
  exact congrArg (· >>= _) readRight

theorem binds_assign {op : Option BinaryOp} (ofTarget : Binds b 1 d first left)
    (ofValue : Binds b 0 d' second right) :
    Binds b 0 (max d (d' + 1)) (first ++ .mark (BinaryOp.assignMark op) :: second)
      (.assign position left op right) := by
  refine .ofReads (by omega) fun n fits ts rest spelled ends => ?_
  obtain ⟨ls, place, rs, spelledLeft, spelledRight, split⟩ := exists_around spelled
  obtain ⟨m, rfl⟩ := Nat.exists_eq_add_one_of_ne_zero (n := n) (by omega)
  have known : assignment? (.mark (BinaryOp.assignMark op)) = some op := by
    rcases op with _ | op
    · rfl
    · cases op <;> rfl
  have continues := tierAt?_of_assignment known
  obtain ⟨l, sameLeft, readLeft⟩ := (ofTarget.reads (m + 1) (by omega)).opens (by omega) (by omega)
    ls (⟨.mark (BinaryOp.assignMark op), place⟩ :: (rs ++ rest)) spelledLeft
    (ends_of_kind rfl (by rw [continues]; rfl))
  obtain ⟨r, sameRight, readRight⟩ := ofValue.reads m (by omega) rs rest spelledRight ends
  refine ⟨.assign l.position l op r, by simp only [Expr.bare, sameLeft, sameRight], ?_⟩
  rw [split, readLeft]
  simp only [continueTier, continueAssignment, known]
  exact congrArg (· >>= _) readRight

theorem binds_negate (ofOperand : Binds b 4 d kinds operand) :
    Binds b 4 (d + 1) (.mark .minus :: kinds) (.negate position operand) := by
  refine .ofOpens (by omega) fun n fits ts rest spelled ends => ?_
  obtain ⟨place, ts, rfl, spelledOperand⟩ := exists_first spelled
  obtain ⟨m, rfl⟩ := Nat.exists_eq_add_one_of_ne_zero (n := n) (by omega)
  obtain ⟨x, same, read⟩ := ofOperand.reads m (by omega) ts rest spelledOperand ends.operand
  refine ⟨.negate place x, by simp only [Expr.bare, same], ?_⟩
  exact congrArg (· >>= _) read

/-- What begins an operand follows the type of a cast. -/
theorem binds_cast {type : TypeExpr} (parsed : type.Parsed)
    (ofOperand : Binds b 4 d kinds operand)
    (starts : ∃ k more, kinds = k :: more ∧ startsOperand [⟨k, 0⟩] = true) :
    Binds b 4 (max type.depth (d + 1)) (parenthesize type.tokens ++ kinds)
      (.cast position type operand) := by
  refine .ofOpens (by omega) fun n fits ts rest spelled ends => ?_
  obtain ⟨parens, ts, rfl, spelledType, spelledOperand⟩ := List.map_eq_append_iff.mp spelled
  obtain ⟨place, inner, close, spelledInner, isClose, split⟩ := exists_between spelledType
  obtain ⟨m, rfl⟩ := Nat.exists_eq_add_one_of_ne_zero (n := n) (by omega)
  obtain ⟨x, same, read⟩ := ofOperand.reads m (by omega) ts rest spelledOperand ends.operand
  have typeRead : readTypeExpr b (m + 1) (inner ++ close :: (ts ++ rest)) =
      .ok (type, close :: (ts ++ rest)) :=
    readTypeExpr_read parsed.readable (by omega) spelledInner (lacks_of_mark isClose (by decide))
  have follows : startsOperand (ts ++ rest) = true := by
    obtain ⟨k, more, rfl, starts⟩ := starts
    obtain ⟨_, ts, rfl, -⟩ := exists_first spelledOperand
    exact starts
  have cast : readCastType? (readTypeExpr b (m + 1))
      (⟨.mark .openParen, place⟩ :: (inner ++ close :: (ts ++ rest))) =
        some (type, ts ++ rest) := by
    simp only [readCastType?, takeMark?_cons, typeRead, Except.toOption, Option.bind_eq_bind,
      Option.bind_some, isClose, follows, Bool.not_true, Bool.and_false, Bool.false_eq_true,
      if_false]
  refine ⟨.cast place type x, by simp only [Expr.bare, same], ?_⟩
  rw [List.append_assoc, split]
  exact readOperandBody_cast cast read

/-- A primary expression that is one token or a name with type arguments. -/
theorem binds_atom {x : Expr}
    (atom : ∀ n, d ≤ n → ∀ ts rest, ts.map (·.kind) = kinds → Ends 6 rest →
      ∃ y, y.bare = x.bare ∧
        readAtom b (readTypeExpr b n) (readExpr b n) (ts ++ rest) = .ok (y, rest)) :
    Binds b 5 d kinds x := by
  refine .ofOpens (Nat.le_refl 5) fun n fits ts rest spelled ends => ?_
  obtain ⟨y, same, read⟩ := atom n fits ts rest spelled ends
  exact ⟨y, same, readTier_access read⟩

theorem readsTypes {args : List TypeExpr} (types : ∀ t ∈ args, t.Parsed) {n : Nat}
    (fits : TypeExpr.depthOfAll args ≤ n) : ReadsTypes (readTypeExpr b n) args :=
  fun t member _ _ => readTypeExpr_read (types t member).readable
    ((TypeExpr.depth_le_all member).trans fits)

theorem binds_name {name : String} {typeArgs : List TypeExpr}
    (types : ∀ t ∈ typeArgs, t.Parsed) :
    Binds b 5 (TypeExpr.depthOfAll typeArgs) (nameToken name :: TypeExpr.argTokens typeArgs)
      (.name position name typeArgs) := by
  refine binds_atom fun n fits ts rest spelled ends => ?_
  obtain ⟨place, args, rfl, spelledArgs⟩ := exists_first spelled
  have read : readTypeArgs b (readTypeExpr b n) (args ++ rest) = .ok (typeArgs, rest) :=
    readTypeArgs_read (readsTypes types fits) spelledArgs (ends.lacks (by decide))
  refine ⟨.name place name typeArgs, rfl, ?_⟩
  unfold nameToken
  split <;> exact congrArg (· >>= _) read

theorem binds_global {name : String} :
    Binds b 5 0 [.global, .mark .doubleColon, .identifier name] (.global position name) := by
  refine binds_atom fun n _ ts rest spelled _ => ?_
  obtain ⟨place, _, rfl, spelledColons⟩ := exists_first spelled
  obtain ⟨_, _, rfl, spelledName⟩ := exists_first spelledColons
  obtain ⟨_, _, rfl, spelledEnd⟩ := exists_first spelledName
  obtain rfl := List.map_eq_nil_iff.mp spelledEnd
  exact ⟨.global place name, rfl, rfl⟩

theorem binds_literal {value : Literal} : Binds b 5 0 [value.token] (.literal position value) := by
  refine binds_atom fun n _ ts rest spelled _ => ?_
  obtain ⟨place, _, rfl, spelledEnd⟩ := exists_first spelled
  obtain rfl := List.map_eq_nil_iff.mp spelledEnd
  refine ⟨.literal place value, rfl, ?_⟩
  cases value with
  | bool value => cases value <;> rfl
  | null | integer value | string value => rfl

theorem binds_this : Binds b 5 0 [.keyword .this] (.this position) := by
  refine binds_atom fun n _ ts rest spelled _ => ?_
  obtain ⟨place, _, rfl, spelledEnd⟩ := exists_first spelled
  obtain rfl := List.map_eq_nil_iff.mp spelledEnd
  exact ⟨.this place, rfl, rfl⟩

end Nodes

section Access
variable {b : Bounds} {kinds suffix : List TokenKind} {target x : Expr} {position d d' : Nat}

/-- What follows a primary expression, if it is read in one step. -/
theorem binds_access (ofTarget : Binds b 5 d kinds target)
    (head : ∃ k more, suffix = k :: more ∧ tierAt? k = some 5)
    (step : ∀ n, d' ≤ n → ∀ t ts rest, t.bare = target.bare →
      ts.map (·.kind) = suffix → Ends 6 rest →
      ∃ y, y.bare = x.bare ∧
        readStep b (readTypeExpr b n) (readExpr b n) t (ts ++ rest) = .ok (some (y, rest))) :
    Binds b 5 (max d d') (kinds ++ suffix) x := by
  refine .ofOpens (Nat.le_refl 5) fun n fits ts rest spelled ends => ?_
  obtain ⟨before, behind, rfl, spelledTarget, spelledSuffix⟩ := List.map_eq_append_iff.mp spelled
  obtain ⟨k, more, split, continues⟩ := head
  obtain ⟨place, tail, rfl, -⟩ := exists_first (spelledSuffix.trans split)
  obtain ⟨t, sameTarget, readTarget⟩ := ofTarget.opens (by omega) n (by omega) before
    (⟨k, place⟩ :: tail ++ rest) spelledTarget (ends_of_kind rfl (by rw [continues]; rfl))
  obtain ⟨y, same, read⟩ := step n (by omega) t _ rest sameTarget spelledSuffix ends
  refine ⟨y, same, ?_⟩
  rw [List.append_assoc, readTarget]
  refine iterate_step read ?_
  simp only [List.length_append, List.length_cons]
  omega

theorem binds_member {name : String} {typeArgs : List TypeExpr}
    (ofTarget : Binds b 5 d kinds target) (types : ∀ t ∈ typeArgs, t.Parsed) :
    Binds b 5 (max d (TypeExpr.depthOfAll typeArgs))
      (kinds ++ .mark .dot :: .identifier name :: TypeExpr.argTokens typeArgs)
      (.member position target name typeArgs) := by
  refine binds_access ofTarget ⟨_, _, rfl, rfl⟩ fun n fits t ts rest same spelled ends => ?_
  obtain ⟨_, _, rfl, spelledName⟩ := exists_first spelled
  obtain ⟨_, args, rfl, spelledArgs⟩ := exists_first spelledName
  have read : readTypeArgs b (readTypeExpr b n) (args ++ rest) = .ok (typeArgs, rest) :=
    readTypeArgs_read (readsTypes types fits) spelledArgs (ends.lacks (by decide))
  refine ⟨.member t.position t name typeArgs, by simp only [Expr.bare, same], ?_⟩
  simp only [List.cons_append, readStep, readName, ok_bind, read]
  rfl

/-- An expression between brackets. -/
theorem Binds.readExpr {e : Expr} (binds : Binds b 0 e.depth e.tokens e) {n : Nat}
    (fits : e.depth + 2 ≤ n) {ts rest : List Token}
    (spelled : ts.map (·.kind) = e.tokens) (ends : Ends 0 rest) :
    ∃ y, y.bare = e.bare ∧ readExpr b n (ts ++ rest) = .ok (y, rest) := by
  obtain ⟨m, rfl⟩ := Nat.exists_eq_add_of_le' (show 2 ≤ n by omega)
  exact binds.reads m (by omega) ts rest spelled ends

theorem binds_index {indices : List Expr} (ofTarget : Binds b 5 d kinds target)
    (nonempty : indices ≠ []) (ofIndices : ∀ i ∈ indices, Binds b 0 i.depth i.tokens i) :
    Binds b 5 (max d (Expr.depthOfAll indices))
      (kinds ++ .mark .openBracket :: (commas (indices.map Expr.tokens) ++ [.mark .closeBracket]))
      (.index position target indices) := by
  refine binds_access ofTarget ⟨_, _, rfl, rfl⟩ fun n fits t ts rest same spelled _ => ?_
  obtain ⟨_, inner, close, spelledInner, isClose, split⟩ := exists_between spelled
  obtain ⟨first, more, rfl⟩ := List.exists_cons_of_ne_nil nonempty
  have reads : ∀ i ∈ first :: more, ∀ ts rest, ts.map (·.kind) = i.tokens → Ends 0 rest →
      ∃ y, y.bare = i.bare ∧ Source.readExpr b n (ts ++ rest) = .ok (y, rest) :=
    fun i member _ _ => (ofIndices i member).readExpr ((Expr.depth_lt_all member).trans fits)
  have ends : takeMark? .comma (close :: rest) = none :=
    (lacks_of_mark isClose (by decide : .closeBracket ∉ [Mark.comma])).takeMark? (by simp)
  obtain ⟨ys, sameAll, read⟩ := separated_read (Ends 0) reads
    (fun _ _ _ _ _ isComma _ => takeMark?_cons isComma)
    (fun _ _ isComma => ends_of_kind isComma rfl) ends (ends_of_kind isClose rfl) spelledInner
  refine ⟨.index t.position t ys, by simp only [Expr.bare, Expr.bareAll_eq, same, sameAll], ?_⟩
  simp only [split, readStep, read, ok_bind, expectMark_cons isClose]
  rfl

/-- An argument begins with no closing parenthesis. -/
theorem begun_argumentTokens {arg : Passing × Expr} (begun : Begun arg.2.tokens) :
    ∃ k more, Expr.argumentTokens arg = k :: more ∧ k ≠ .mark .closeParen := by
  obtain ⟨passing, e⟩ := arg
  cases passing with
  | value =>
    obtain ⟨k, more, split, starts⟩ := begun
    refine ⟨k, more, split, ?_⟩
    rintro rfl
    rcases starts with starts | starts <;> cases starts
  | ref => exact ⟨_, _, rfl, nofun⟩
  | out => exact ⟨_, _, rfl, nofun⟩

theorem readArgument_value {expr : Parser Expr} {k : TokenKind} {place : Nat} {ts rest : List Token}
    {e : Expr} (starts : startsOperand [⟨k, 0⟩] = true ∨ k = .mark .minus)
    (read : expr (⟨k, place⟩ :: ts) = .ok (e, rest)) :
    readArgument expr (⟨k, place⟩ :: ts) = .ok ((.value, e), rest) := by
  have plain : k ≠ .keyword .ref ∧ k ≠ .keyword .out := by
    refine ⟨?_, ?_⟩ <;> rintro rfl <;> rcases starts with starts | starts <;> cases starts
  unfold readArgument
  split
  next passing ts' same =>
    split at same
    · next isRef => exact absurd (congrArg Token.kind (List.cons.inj isRef).1) plain.1
    · next isOut => exact absurd (congrArg Token.kind (List.cons.inj isOut).1) plain.2
    · cases same
      rw [read]
      rfl

theorem readArgument_read {arg : Passing × Expr} (binds : Binds b 0 arg.2.depth arg.2.tokens arg.2)
    (begun : Begun arg.2.tokens) {n : Nat} (fits : arg.2.depth + 2 ≤ n) {ts rest : List Token}
    (spelled : ts.map (·.kind) = Expr.argumentTokens arg)
    (ends : Ends 0 rest) :
    ∃ y, Prod.map id Expr.bare y = Prod.map id Expr.bare arg ∧
      readArgument (readExpr b n) (ts ++ rest) = .ok (y, rest) := by
  obtain ⟨passing, e⟩ := arg
  cases passing with
  | value =>
    obtain ⟨y, same, read⟩ := binds.readExpr fits spelled ends
    refine ⟨(.value, y), congrArg (Prod.mk _) same, ?_⟩
    obtain ⟨k, more, split, starts⟩ := begun
    obtain ⟨_, _, rfl, -⟩ := exists_first (spelled.trans split)
    exact readArgument_value starts read
  | ref | out =>
    obtain ⟨_, _, rfl, spelledValue⟩ := exists_first spelled
    obtain ⟨y, same, read⟩ := binds.readExpr fits spelledValue ends
    exact ⟨(_, y), congrArg (Prod.mk _) same, congrArg (· >>= _) read⟩

theorem readArgumentList_read {args : List (Passing × Expr)}
    (ofArgs : ∀ arg ∈ args, Binds b 0 arg.2.depth arg.2.tokens arg.2)
    (begun : ∀ arg ∈ args, Begun arg.2.tokens)
    {n : Nat} (fits : Expr.depthOfArgs args ≤ n)
    {inner rest : List Token} {close : Token} (isClose : close.kind = .mark .closeParen)
    (spelled : inner.map (·.kind) = commas (args.map Expr.argumentTokens)) :
    ∃ ys, ys.map (Prod.map id Expr.bare) = args.map (Prod.map id Expr.bare) ∧
      readArgumentList b (readExpr b n) (inner ++ close :: rest) = .ok (ys, rest) := by
  cases args with
  | nil =>
    obtain rfl := List.map_eq_nil_iff.mp spelled
    refine ⟨[], rfl, ?_⟩
    rw [readArgumentList, List.nil_append, takeMark?_cons isClose]
  | cons first more =>
    have reads : ∀ arg ∈ first :: more, ∀ ts rest, ts.map (·.kind) = Expr.argumentTokens arg →
        Ends 0 rest → ∃ y, Prod.map id Expr.bare y = Prod.map id Expr.bare arg ∧
          readArgument (readExpr b n) (ts ++ rest) = .ok (y, rest) :=
      fun arg member _ _ => readArgument_read (ofArgs arg member) (begun arg member)
        ((Expr.depth_lt_args member).trans fits)
    have ends : takeMark? .comma (close :: rest) = none :=
      (lacks_of_mark isClose (by decide : .closeParen ∉ [Mark.comma])).takeMark? (by simp)
    obtain ⟨ys, same, read⟩ := separated_read (Ends 0) reads
      (fun _ _ _ _ _ isComma _ => takeMark?_cons isComma)
      (fun _ _ isComma => ends_of_kind isComma rfl) ends (ends_of_kind isClose rfl) spelled
    have opens : takeMark? .closeParen (inner ++ close :: rest) = none := by
      obtain ⟨k, kinds, split, other⟩ := begun_argumentTokens (begun first (by simp))
      rw [List.map_cons, split, commas, intercalate_singleton] at spelled
      obtain ⟨_, _, rfl, -⟩ := exists_first spelled
      exact if_neg other
    refine ⟨ys, same, ?_⟩
    simp only [readArgumentList, opens, read, ok_bind, expectMark_cons isClose]
    rfl

theorem binds_invoke {args : List (Passing × Expr)} (ofTarget : Binds b 5 d kinds target)
    (ofArgs : ∀ arg ∈ args, Binds b 0 arg.2.depth arg.2.tokens arg.2)
    (begun : ∀ arg ∈ args, Begun arg.2.tokens) :
    Binds b 5 (max d (Expr.depthOfArgs args))
      (kinds ++ parenthesize (commas (args.map Expr.argumentTokens)))
      (.invoke position target args) := by
  refine binds_access ofTarget ⟨_, _, rfl, rfl⟩ fun n fits t ts rest same spelled _ => ?_
  obtain ⟨_, inner, close, spelledInner, isClose, split⟩ := exists_between spelled
  obtain ⟨ys, sameAll, read⟩ :=
    readArgumentList_read ofArgs begun fits isClose spelledInner
  refine ⟨.invoke t.position t ys, by simp only [Expr.bare, Expr.bareArgs_eq, same, sameAll], ?_⟩
  rw [split]
  exact congrArg (· >>= _) read

end Access

/-- Every expression that can be written is read back from its tokens. -/
theorem Expr.Writable.binds {e : Expr} (writable : e.Writable) (b : Bounds) :
    Binds b e.tier e.depth e.tokens e := by
  induction writable with
  | name simple types => exact binds_name types
  | global isName => exact binds_global
  | literal => exact binds_literal
  | this => exact binds_this
  | member ofTarget isName types ih =>
    exact binds_member (ih.placed ofTarget.shaped (Nat.le_refl 5)) types
  | invoke ofTarget ofArgs ih ihArgs =>
    rw [tokens_invoke]
    exact binds_invoke (ih.placed ofTarget.shaped (Nat.le_refl 5))
      (fun arg member => (ihArgs arg member).mono arg.2.tier_le (ofArgs arg member).shaped.plain
        (Nat.zero_le _))
      fun arg member => (ofArgs arg member).shaped.begun
  | index ofTarget nonempty ofIndices ih ihIndices =>
    rw [tokens_index]
    exact binds_index (ih.placed ofTarget.shaped (Nat.le_refl 5)) nonempty fun i member =>
      (ihIndices i member).mono i.tier_le (ofIndices i member).shaped.plain (Nat.zero_le _)
  | cast parsed ofOperand ih =>
    exact binds_cast parsed (ih.placedUnderCast ofOperand.shaped)
      ofOperand.shaped.underCast_starts
  | negate ofOperand ih => exact binds_negate (ih.placed ofOperand.shaped (by omega))
  | @binary _ op _ _ ofLeft ofRight ihLeft ihRight =>
    exact binds_binary (ihLeft.placed ofLeft.shaped (by cases op <;> simp [BinaryOp.tier]))
      (ihRight.placed ofRight.shaped (by cases op <;> simp [BinaryOp.tier]))
  | coalesce ofLeft ofRight ihLeft ihRight =>
    exact binds_coalesce (ihLeft.placed ofLeft.shaped (by omega))
      (ihRight.placed ofRight.shaped (by omega))
  | assign ofTarget ofValue ihTarget ihValue =>
    exact binds_assign (ihTarget.placed ofTarget.shaped (by omega))
      (ihValue.mono (tier_le _) ofValue.shaped.plain (Nat.zero_le _))

/-- Parsing inverts printing up to positions, wherever the limit on nesting leaves the levels that
the expression takes. -/
theorem Expr.parse_print {e : Expr} (writable : e.Writable) {maxDepth : Nat}
    (fits : e.depth + 2 ≤ maxDepth) :
    ∃ parsed, parse e.print maxDepth = .ok parsed ∧ parsed.bare = e.bare := by
  obtain ⟨scanned, scans, spelled⟩ :=
    scan_spellAll writable.scannable.spellable writable.scannable.isPhrased
  obtain ⟨parsed, same, read⟩ : ∃ y, y.bare = e.bare ∧
      readExpr ⟨scanned.stop, maxDepth⟩ maxDepth (scanned.tokens ++ []) = .ok (y, []) :=
    ((writable.binds _).mono e.tier_le writable.shaped.plain (Nat.zero_le _)).readExpr fits spelled
      ends_nil
  rw [List.append_nil] at read
  refine ⟨parsed, ?_, same⟩
  simp only [parse, Expr.print, scans, ok_bind, read]
  rfl

/-- The value of `( x . Items [ - 1 ] ?? y ) . Total = ( Amount ) ( - 2 ) * ( a + b )`. -/
def sampleExpr : Expr :=
  .assign 0
    (.member 0
      (.coalesce 0
        (.index 0 (.member 0 (.name 0 "x" []) "Items" []) [.negate 0 (.literal 0 (.integer 1))])
        (.name 0 "y" []))
      "Total" [])
    none
    (.binary 0 .multiply
      (.cast 0 (.named false [("Amount", [])]) (.negate 0 (.literal 0 (.integer 2))))
      (.binary 0 .add (.name 0 "a" []) (.name 0 "b" [])))

theorem sampleExpr_writable : sampleExpr.Writable := by
  have x : IsMemberName "x" := isMemberName_iff.mpr ⟨'x', [], rfl, rfl, nofun⟩
  have y : IsMemberName "y" := isMemberName_iff.mpr ⟨'y', [], rfl, rfl, nofun⟩
  have a : IsMemberName "a" := isMemberName_iff.mpr ⟨'a', [], rfl, rfl, nofun⟩
  have b : IsMemberName "b" := isMemberName_iff.mpr ⟨'b', [], rfl, rfl, nofun⟩
  have items : IsMemberName "Items" :=
    isMemberName_iff.mpr ⟨'I', "tems".toList, rfl, rfl, List.all_eq_true.mp rfl⟩
  have total : IsMemberName "Total" :=
    isMemberName_iff.mpr ⟨'T', "otal".toList, rfl, rfl, List.all_eq_true.mp rfl⟩
  have amount : IsName "Amount".toList :=
    ⟨'A', "mount".toList, rfl, rfl, List.all_eq_true.mp rfl⟩
  have type : (TypeExpr.named false [("Amount", [])]).Parsed :=
    TypeExpr.parsed_iff_readable.mpr (.named (by simp) (by simpa using amount)
      (fun _ s member => by cases member; decide) (by simp))
  have element : Expr.Writable (.index 0 (.member 0 (.name 0 "x" []) "Items" [])
      [.negate 0 (.literal 0 (.integer 1))]) :=
    .index (.member (.name x.isSimple nofun) items nofun) (by simp)
      (by simpa using .negate .literal)
  exact .assign (.member (.coalesce element (.name y.isSimple nofun)) total nofun)
    (.binary (.cast type (.negate .literal))
      (.binary (.name a.isSimple nofun) (.name b.isSimple nofun)))

/-- The cast of a negation and the loose parts stand in parentheses, and all of it is read back. -/
theorem sampleExpr_parses :
    sampleExpr.print =
      "( x . Items [ - 1 ] ?? y ) . Total = ( Amount ) ( - 2 ) * ( a + b )" ∧
    sampleExpr.Writable ∧ sampleExpr.depth + 2 ≤ 8 ∧
    ∃ parsed, parse sampleExpr.print 8 = .ok parsed ∧ parsed.bare = sampleExpr :=
  ⟨by decide +kernel, sampleExpr_writable, by decide,
    Expr.parse_print sampleExpr_writable (by decide)⟩

end DebugExpr.Source
