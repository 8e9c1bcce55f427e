import DebugExpr.Proofs.SharedReadings

/-! Reading with more levels. What is read with some levels is read in the same way with more: a
cast that more levels bring to light has a type that is nested too deeply for the fewer, and with
these nothing was read in its place. -/
namespace DebugExpr.Source
open Metadata Parsing

variable {α β : Type}

/-- Whatever the first computation answers has the property, and the second answers it as well. -/
def Repeats (P : α → Prop) (x y : Except Error α) : Prop :=
  ∀ a, x = .ok a → y = .ok a ∧ P a

section Computations
variable {P : α → Prop} {Q : β → Prop} {x y : Except Error α}

theorem repeats_ok {a : α} (holds : P a) : Repeats P (.ok a) (.ok a) := by
  rintro _ ⟨⟩
  exact ⟨rfl, holds⟩

theorem repeats_error {e : Error} : Repeats P (.error e) y :=
  nofun

theorem Repeats.bind {f g : α → Except Error β} (first : Repeats P x y)
    (next : ∀ a, P a → Repeats Q (f a) (g a)) : Repeats Q (x >>= f) (y >>= g) := by
  intro b read
  obtain ⟨a, one, two⟩ := bind_eq_ok.mp read
  obtain ⟨again, holds⟩ := first a one
  rw [again]
  exact next a holds b two

end Computations

/-- Spellable tokens are left. -/
def Leaves (found : α × List Token) : Prop :=
  AllSpellable found.2

/-- Whatever the first reader reads in the tokens of a text, the second reads as well. -/
def Deepens (read read' : Parser α) : Prop :=
  ∀ ts, AllSpellable ts → Repeats Leaves (read ts) (read' ts)

section Repetitions

theorem iterate_repeats {step step' : α → List Token → Except Error (Option (α × List Token))}
    (each : ∀ x ts, AllSpellable ts →
      Repeats (fun o => ∀ found ∈ o, Leaves found) (step x ts) (step' x ts))
    (x : α) : Deepens (iterate step x) (iterate step' x) := by
  intro ts spellable found read
  fun_induction iterate step x ts with
  | case1 x ts e failed => cases read
  | case2 x ts ends =>
    cases read
    exact ⟨iterate_eq_ok (each x ts spellable _ ends).1, spellable⟩
  | case3 x ts next rest taken shorter ih =>
    obtain ⟨again, left⟩ := each x ts spellable _ taken
    rw [iterate_step again shorter]
    exact ih (left _ rfl) read
  | case4 x ts next rest taken longer =>
    obtain ⟨again, left⟩ := each x ts spellable _ taken
    cases read
    rw [iterate, again]
    exact ⟨if_neg longer, left _ rfl⟩

theorem takeMark?_spellable {sign : Mark} {ts rest : List Token}
    (taken : takeMark? sign ts = some rest) (spellable : AllSpellable ts) : AllSpellable rest := by
  obtain ⟨token, -, rfl⟩ := takeMark?_eq_some.mp taken
  exact spellable.tail

theorem separated_repeats {item item' : Parser α} (each : Deepens item item') :
    Deepens (separated (takeMark? .comma) item) (separated (takeMark? .comma) item') := by
  refine fun ts spellable => (each ts spellable).bind fun first left => ?_
  refine iterate_repeats (fun items ts spellable => ?_) _ _ left
  dsimp only
  split
  · exact repeats_ok nofun
  · next behind comma =>
    refine (each behind (takeMark?_spellable comma spellable)).bind fun next left => repeats_ok ?_
    rintro _ ⟨⟩
    exact left

end Repetitions

section Readers
variable {b b' : Bounds} {levels levels' : Nat} {expr expr' unary unary' : Parser Expr}

theorem expectMark_repeats (sign : Mark) {ts : List Token} (spellable : AllSpellable ts) :
    Repeats AllSpellable (expectMark b sign ts) (expectMark b' sign ts) := by
  intro rest read
  have taken := expectMark_eq_ok.mp read
  exact ⟨expectMark_eq_ok.mpr taken, takeMark?_spellable taken spellable⟩

theorem readName_repeats : Deepens (readName b) (readName b') := by
  rintro ts spellable ⟨name, rest⟩ read
  obtain ⟨⟨_, place⟩, rfl, rfl⟩ := readName_eq_ok read
  exact ⟨rfl, spellable.tail⟩

/-- Type arguments that fit into some levels fit into more. -/
theorem readTypeArgs_repeats (fits : levels ≤ levels') :
    Deepens (readTypeArgs b (readTypeExpr b levels))
      (readTypeArgs b' (readTypeExpr b' levels')) := by
  rintro ts spellable ⟨args, rest⟩ read
  obtain ⟨each, behind, taken, rfl, spelled⟩ := (readTypeArgs_eq_ok spellable).mp read
  have deeper : ∀ t ∈ args, t.Readable ∧ t.depth ≤ levels' :=
    fun t member => ⟨(each t member).1, (each t member).2.trans fits⟩
  exact ⟨(readTypeArgs_eq_ok spellable).mpr ⟨deeper, behind, taken, rfl, spelled⟩,
    fun token member => spellable token (List.mem_append_right _ member)⟩

theorem readArgument_repeats (each : Deepens expr expr') :
    Deepens (readArgument expr) (readArgument expr') := by
  intro ts spellable
  have behind : ∀ (passing : Passing) (ts : List Token), AllSpellable ts →
      Repeats Leaves (expr ts >>= fun found => .ok ((passing, found.1), found.2))
        (expr' ts >>= fun found => .ok ((passing, found.1), found.2)) :=
    fun passing ts spellable => (each ts spellable).bind fun _ left => repeats_ok left
  cases ts with
  | nil => exact behind .value [] spellable
  | cons token ts =>
    obtain ⟨k, place⟩ := token
    cases k with
    | keyword word =>
      cases word with
      | ref | out => exact behind _ ts spellable.tail
      | _ => exact behind .value _ spellable
    | _ => exact behind .value _ spellable

theorem readArgumentList_repeats (each : Deepens expr expr') :
    Deepens (readArgumentList b expr) (readArgumentList b' expr') := by
  intro ts spellable
  unfold readArgumentList
  split
  · next rest close => exact repeats_ok (takeMark?_spellable close spellable)
  · exact (separated_repeats (readArgument_repeats each) _ spellable).bind fun _ left =>
      (expectMark_repeats _ left).bind fun _ left => repeats_ok left

theorem readAtom_repeats (fits : levels ≤ levels') (each : Deepens expr expr') :
    Deepens (readAtom b (readTypeExpr b levels) expr)
      (readAtom b' (readTypeExpr b' levels') expr') := by
  intro ts spellable
  unfold readAtom
  dsimp only
  split
  case h_1 | h_2 =>
    exact (readTypeArgs_repeats fits _ spellable.tail).bind fun _ left => repeats_ok left
  case h_3 =>
    refine (expectMark_repeats _ spellable.tail).bind fun _ left => ?_
    split
    · exact repeats_ok left.tail
    · exact repeats_error
  case h_10 =>
    exact (each _ spellable.tail).bind fun _ left =>
      (expectMark_repeats _ left).bind fun _ left => repeats_ok left
  case h_11 => exact repeats_error
  all_goals exact repeats_ok spellable.tail

theorem readStep_repeats (fits : levels ≤ levels') (each : Deepens expr expr') (target : Expr)
    {ts : List Token} (spellable : AllSpellable ts) :
    Repeats (fun o => ∀ found ∈ o, Leaves found)
      (readStep b (readTypeExpr b levels) expr target ts)
      (readStep b' (readTypeExpr b' levels') expr' target ts) := by
  have next : ∀ {found : Expr × List Token}, AllSpellable found.2 →
      ∀ other ∈ some found, Leaves other := by
    rintro _ left _ ⟨⟩
    exact left
  unfold readStep
  split
  · exact (readName_repeats _ spellable.tail).bind fun _ left =>
      (readTypeArgs_repeats fits _ left).bind fun _ left => repeats_ok (next left)
  · exact (readArgumentList_repeats each _ spellable.tail).bind fun _ left =>
      repeats_ok (next left)
  · exact (separated_repeats each _ spellable.tail).bind fun _ left =>
      (expectMark_repeats _ left).bind fun _ left => repeats_ok (next left)
  · exact repeats_ok nofun

theorem readAccess_repeats (fits : levels ≤ levels') (each : Deepens expr expr') :
    Deepens (readAccess b (readTypeExpr b levels) expr)
      (readAccess b' (readTypeExpr b' levels') expr') :=
  fun ts spellable => (readAtom_repeats fits each ts spellable).bind fun _ left =>
    iterate_repeats (fun target _ spellable => readStep_repeats fits each target spellable) _ _ left

theorem readChain_repeats {operand operand' : Parser Expr} (each : Deepens operand operand')
    (operator? : TokenKind → Option BinaryOp) :
    Deepens (readChain operator? operand) (readChain operator? operand') := by
  refine fun ts spellable => (each ts spellable).bind fun first left => ?_
  refine iterate_repeats (fun left ts spellable => ?_) _ _ left
  split
  · exact repeats_ok nofun
  split
  · exact repeats_ok nofun
  · refine (each _ spellable.tail).bind fun right left => repeats_ok ?_
    rintro _ ⟨⟩
    exact left

theorem readFallbackBody_repeats {sum sum' right right' : Parser Expr} (first : Deepens sum sum')
    (second : Deepens right right') :
    Deepens (readFallbackBody sum right) (readFallbackBody sum' right') := by
  refine fun ts spellable => (first ts spellable).bind fun found left => ?_
  dsimp only
  split
  · exact repeats_ok left
  · next rest mark =>
    exact (second rest (takeMark?_spellable mark left)).bind fun _ left => repeats_ok left

theorem readExprBody_repeats {coalesce coalesce' assignment assignment' : Parser Expr}
    (first : Deepens coalesce coalesce') (second : Deepens assignment assignment') :
    Deepens (readExprBody coalesce assignment) (readExprBody coalesce' assignment') := by
  refine fun ts spellable => (first ts spellable).bind fun ⟨target, rest⟩ left => ?_
  cases rest with
  | nil => exact repeats_ok left
  | cons token rest =>
    dsimp only
    split
    · exact repeats_ok left
    · exact (second _ left.tail).bind fun _ left => repeats_ok left

variable (b') in
/-- A type that fits into some levels makes a cast with more as well. -/
theorem readCastType?_repeats (fits : levels ≤ levels') {t : TypeExpr} {ts rest : List Token}
    (spellable : AllSpellable ts)
    (read : readCastType? (readTypeExpr b levels) ts = some (t, rest)) :
    readCastType? (readTypeExpr b' levels') ts = some (t, rest) ∧ AllSpellable rest := by
  obtain ⟨readable, shallow, cast, taken, rfl, spelled⟩ := (readCastType?_eq_some spellable).mp read
  exact ⟨(readCastType?_eq_some spellable).mpr
    ⟨readable, shallow.trans fits, cast, taken, rfl, spelled⟩,
    fun token member => spellable token (List.mem_append_right _ member)⟩

/-- Where only more levels make a cast, its type is nested too deeply for the fewer. -/
theorem deep_of_readCastType? {t : TypeExpr} {ts rest : List Token} (spellable : AllSpellable ts)
    (fails : readCastType? (readTypeExpr b levels) ts = none)
    (read : readCastType? (readTypeExpr b' levels') ts = some (t, rest)) : levels < t.depth := by
  obtain ⟨readable, -, cast, taken, rfl, spelled⟩ := (readCastType?_eq_some spellable).mp read
  by_contra shallow
  have found : readCastType? (readTypeExpr b levels) (taken ++ rest) = some (t, rest) :=
    (readCastType?_eq_some spellable).mpr
      ⟨readable, Nat.le_of_not_lt shallow, cast, taken, rfl, spelled⟩
  cases fails.symm.trans found

theorem readOperandBody_repeats (fits : levels ≤ levels')
    (each : Deepens (readExpr b levels) (readExpr b' levels')) (below : Deepens unary unary') :
    Deepens (readOperandBody b (readTypeExpr b levels) (readExpr b levels) unary)
      (readOperandBody b' (readTypeExpr b' levels') (readExpr b' levels') unary') := by
  intro ts spellable
  cases ts with
  | nil => exact repeats_error
  | cons token behind =>
  obtain ⟨k, place⟩ := token
  by_cases minus : k = .mark .minus
  · subst minus
    exact (below _ spellable.tail).bind fun _ left => repeats_ok left
  by_cases plus : k = .mark .plus
  · subst plus
    exact below _ spellable.tail
  rw [readOperandBody_unsigned minus plus, readOperandBody_unsigned minus plus]
  cases cast : readCastType? (readTypeExpr b levels) (⟨k, place⟩ :: behind) with
  | some found =>
    obtain ⟨again, left⟩ := readCastType?_repeats b' fits spellable cast
    rw [again]
    exact (below _ left).bind fun _ left => repeats_ok left
  | none =>
    cases cast' : readCastType? (readTypeExpr b' levels') (⟨k, place⟩ :: behind) with
    | none => exact readAccess_repeats fits each _ spellable
    | some found =>
      -- the operand that the fewer levels would read instead has the type in parentheses
      have deep := deep_of_readCastType? spellable cast cast'
      exact fun _ read => absurd read (readAccess_of_deepCast spellable cast' deep)

end Readers

/-- The readers of some levels are deepened by those of more. -/
theorem levels_repeat {b b' : Bounds} {levels levels' : Nat} (fits : levels ≤ levels') :
    Deepens (readOperand b levels) (readOperand b' levels') ∧
      Deepens (readFallback b levels) (readFallback b' levels') ∧
      Deepens (readExpr b levels) (readExpr b' levels') := by
  induction levels generalizing levels' with
  | zero =>
    refine ⟨?_, ?_, ?_⟩ <;> exact fun ts spellable => repeats_error
  | succ levels ih =>
    obtain ⟨levels', rfl⟩ := Nat.exists_eq_add_one_of_ne_zero (n := levels') (by omega)
    have fits : levels ≤ levels' := Nat.le_of_succ_le_succ fits
    obtain ⟨operand, fallback, expr⟩ := ih fits
    have body := readOperandBody_repeats fits expr operand
    rw [readOperand, readFallback, readExpr, readOperand, readFallback, readExpr]
    exact ⟨body, readFallbackBody_repeats (readChain_repeats (readChain_repeats body _) _) fallback,
      readExprBody_repeats fallback expr⟩

end DebugExpr.Source
