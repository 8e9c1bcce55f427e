import DebugExpr.Source.Parse

/-! Errors of reading. Whatever keeps a text from being read is about the text: it is misspelled, it
has the retired form of an object id, or it is nested deeper than the limit. -/
namespace DebugExpr

/-- A computation fails with errors of a kind alone. -/
def Raises {ε α : Type} (P : ε → Prop) (x : Except ε α) : Prop :=
  ∀ e, x = .error e → P e

section Computations
variable {ε α β : Type} {P : ε → Prop}

theorem raises_ok {a : α} : Raises P (.ok a) := by
  rintro e ⟨⟩

theorem raises_error {e : ε} (holds : P e) : Raises P (.error e : Except ε α) := by
  rintro _ ⟨⟩
  exact holds

theorem Raises.mono {Q : ε → Prop} {x : Except ε α} (raises : Raises P x)
    (weaker : ∀ e, P e → Q e) : Raises Q x :=
  fun e failed => weaker e (raises e failed)

theorem Raises.bind {x : Except ε α} {f : α → Except ε β} (first : Raises P x)
    (next : ∀ a, Raises P (f a)) : Raises P (x >>= f) := by
  intro e failed
  cases x with
  | error =>
    cases failed
    exact first _ rfl
  | ok a => exact next a e failed

theorem raises_mapError {ε' : Type} {x : Except ε' α} {f : ε' → ε} (each : ∀ e, P (f e)) :
    Raises P (x.mapError f) := by
  cases x with
  | error e => exact raises_error (each e)
  | ok a => exact raises_ok

/-- A failure is seen without its answer, which need not be comparable. -/
theorem eq_error_of_map {x : Except ε α} {f : α → β} {e : ε} (failed : x.map f = .error e) :
    x = .error e := by
  cases x with
  | error => exact congrArg Except.error (Except.error.inj failed)
  | ok a => cases failed

end Computations

namespace Parsing
variable {α τ ε : Type} {P : ε → Prop}

theorem raises_iterate {step : α → List τ → Except ε (Option (α × List τ))}
    (each : ∀ value input, Raises P (step value input)) (value : α) (input : List τ) :
    Raises P (iterate step value input) := by
  intro e failed
  fun_induction iterate step value input with
  | case1 value input _ stepped =>
    cases failed
    exact each value input _ stepped
  | case2 => cases failed
  | case3 value input next rest taken shorter ih => exact ih failed
  | case4 => cases failed

theorem raises_separated {separator : List τ → Option (List τ)}
    {item : List τ → Except ε (α × List τ)} (each : ∀ input, Raises P (item input))
    (input : List τ) : Raises P (separated separator item input) := by
  refine (each input).bind fun first => raises_iterate (fun items input => ?_) _ _
  dsimp only
  split
  · exact raises_ok
  · exact (each _).bind fun next => raises_ok

end Parsing

namespace Source
open Parsing

/-- The error is about a text that is read with a limit on nesting. -/
inductive OfText (limit : Nat) : Error → Prop
  | badSyntax {position : Nat} {message : String} : OfText limit (.badSyntax position message)
  | legacyObjectId {position : Nat} : OfText limit (.legacyObjectId position)
  | recursionLimit : OfText limit (.recursionLimit limit)

theorem OfText.missingAssemblies {limit : Nat} {e : Error} (ofText : OfText limit e) :
    e.missingAssemblies = [] := by
  cases ofText <;> rfl

section Scanning
variable {limit length start : Nat}

theorem takeNumber_raises (value : Option Nat) (rest : List Char) :
    Raises (OfText limit) (takeNumber length start value rest) := by
  unfold takeNumber
  split
  · exact raises_error .legacyObjectId
  split
  · exact raises_error .badSyntax
  split
  · split
    · exact raises_ok
    · exact raises_error .badSyntax
  · exact raises_error .badSyntax

theorem scanNumber_raises (input : List Char) : Raises (OfText limit) (scanNumber length input) := by
  unfold scanNumber
  dsimp only
  split
  · split <;> exact takeNumber_raises _ _
  · exact takeNumber_raises _ _

theorem scanString_raises (input : List Char) :
    Raises (OfText limit) (scanString length start input) := by
  fun_induction scanString length start input with
  | case1 | case2 | case3 | case5 => exact raises_error .badSyntax
  | case4 c rest value escape ih => exact ih.bind fun _ => raises_ok
  | case7 c rest plain inside unquoted ih => exact ih.bind fun _ => raises_ok
  | case6 => exact raises_ok

theorem scanAt_raises (rest : List Char) : Raises (OfText limit) (scanAt length rest) := by
  unfold scanAt
  dsimp only
  repeat' split
  all_goals first
    | exact raises_ok
    | exact raises_error .badSyntax

theorem scanToken_raises (c : Char) (rest : List Char) :
    Raises (OfText limit) (scanToken length c rest) := by
  unfold scanToken
  dsimp only
  split
  · exact scanNumber_raises _
  split
  · exact (scanString_raises _).bind fun _ => raises_ok
  split
  · exact scanAt_raises _
  split
  · exact raises_ok
  split
  · exact raises_ok
  · exact raises_error .badSyntax

theorem scan_raises (text : String) : Raises (OfText limit) (scan text) := by
  refine Raises.bind (raises_iterate (fun tokens input => ?_) _ _) fun _ => raises_ok
  dsimp only
  split
  · exact raises_ok
  · exact (scanToken_raises _ _).bind fun _ => raises_ok

end Scanning

section Readers
variable {b : Bounds} {type : Parser TypeExpr} {expr : Parser Expr}

/-- A reader fails with errors about its text alone. -/
def Blames {α : Type} (b : Bounds) (read : Parser α) : Prop :=
  ∀ input, Raises (OfText b.maxDepth) (read input)

theorem blames_tooDeep {α : Type} : Blames b fun _ => (b.tooDeep : Except Error (α × List Token)) :=
  fun _ => raises_error .recursionLimit

theorem expectMark_raises (mark : Mark) (ts : List Token) :
    Raises (OfText b.maxDepth) (expectMark b mark ts) := by
  unfold expectMark
  split
  · exact raises_ok
  · exact raises_error .badSyntax

theorem readName_blames : Blames b (readName b) := by
  intro input
  unfold readName
  split
  · exact raises_ok
  · exact raises_error .badSyntax

theorem readTypeArgs_blames (blames : Blames b type) : Blames b (readTypeArgs b type) := by
  intro input
  unfold readTypeArgs
  split
  · exact raises_ok
  · exact (raises_separated blames _).bind fun _ =>
      (expectMark_raises _ _).bind fun _ => raises_ok

theorem readDottedType_blames (blames : Blames b type) (isGlobal : Bool) :
    Blames b (readDottedType b type isGlobal) := by
  intro input
  refine (raises_separated (fun input => ?_) _).bind fun _ => raises_ok
  exact (readName_blames _).bind fun _ => (readTypeArgs_blames blames _).bind fun _ => raises_ok

theorem readTypeHead_blames (blames : Blames b type) : Blames b (readTypeHead b type) := by
  intro input
  unfold readTypeHead
  split
  · exact raises_ok
  · exact (expectMark_raises _ _).bind fun _ => readDottedType_blames blames true _
  split
  · split
    · exact raises_error .badSyntax
    · exact readDottedType_blames blames false _
  · exact raises_error .badSyntax

theorem readRanks_blames (element : TypeExpr) : Blames b (readRanks b element) := by
  refine fun input => raises_iterate (fun type ts => ?_) _ _
  dsimp only
  split
  · exact raises_ok
  · exact (expectMark_raises _ _).bind fun _ => raises_ok

theorem readTypeExpr_blames (levels : Nat) : Blames b (readTypeExpr b levels) := by
  induction levels with
  | zero => exact blames_tooDeep
  | succ levels ih =>
    refine fun input => (readTypeHead_blames ih _).bind fun head => ?_
    dsimp only
    split <;> exact readRanks_blames _ _

theorem readChain_blames {operator? : TokenKind → Option BinaryOp} {operand : Parser Expr}
    (blames : Blames b operand) : Blames b (readChain operator? operand) := by
  refine fun input => (blames _).bind fun first => raises_iterate (fun left ts => ?_) _ _
  dsimp only
  split
  · exact raises_ok
  split
  · exact raises_ok
  · exact (blames _).bind fun _ => raises_ok

theorem readSum_blames {operand : Parser Expr} (blames : Blames b operand) :
    Blames b (readSum operand) :=
  readChain_blames (readChain_blames blames)

theorem readArgumentList_blames (blames : Blames b expr) : Blames b (readArgumentList b expr) := by
  intro input
  unfold readArgumentList
  split
  · exact raises_ok
  · refine (raises_separated (fun input => ?_) _).bind fun _ =>
      (expectMark_raises _ _).bind fun _ => raises_ok
    exact (blames _).bind fun _ => raises_ok

theorem readAtom_blames (blamesType : Blames b type) (blames : Blames b expr) :
    Blames b (readAtom b type expr) := by
  intro input
  unfold readAtom
  dsimp only
  split
  case h_1 | h_2 => exact (readTypeArgs_blames blamesType _).bind fun _ => raises_ok
  case h_3 =>
    refine (expectMark_raises _ _).bind fun _ => ?_
    split
    · exact raises_ok
    · exact raises_error .badSyntax
  case h_10 => exact (blames _).bind fun _ => (expectMark_raises _ _).bind fun _ => raises_ok
  case h_11 => exact raises_error .badSyntax
  all_goals exact raises_ok

theorem readStep_raises (blamesType : Blames b type) (blames : Blames b expr) (target : Expr)
    (ts : List Token) : Raises (OfText b.maxDepth) (readStep b type expr target ts) := by
  unfold readStep
  split
  · exact (readName_blames _).bind fun _ =>
      (readTypeArgs_blames blamesType _).bind fun _ => raises_ok
  · exact (readArgumentList_blames blames _).bind fun _ => raises_ok
  · exact (raises_separated blames _).bind fun _ =>
      (expectMark_raises _ _).bind fun _ => raises_ok
  · exact raises_ok

theorem readOperandBody_blames {unary : Parser Expr} (blamesType : Blames b type)
    (blames : Blames b expr) (blamesUnary : Blames b unary) :
    Blames b (readOperandBody b type expr unary) := by
  intro input
  unfold readOperandBody
  dsimp only
  split
  · exact (blamesUnary _).bind fun _ => raises_ok
  · exact blamesUnary _
  split
  · exact (blamesUnary _).bind fun _ => raises_ok
  · exact (readAtom_blames blamesType blames _).bind fun _ =>
      raises_iterate (readStep_raises blamesType blames) _ _

theorem readFallbackBody_blames {sum coalesce : Parser Expr} (blames : Blames b sum)
    (blamesRight : Blames b coalesce) : Blames b (readFallbackBody sum coalesce) := by
  refine fun input => (blames _).bind fun left => ?_
  dsimp only
  split
  · exact raises_ok
  · exact (blamesRight _).bind fun _ => raises_ok

theorem readExprBody_blames {coalesce assignment : Parser Expr} (blames : Blames b coalesce)
    (blamesValue : Blames b assignment) : Blames b (readExprBody coalesce assignment) := by
  refine fun input => (blames _).bind fun target => ?_
  dsimp only
  split
  · exact raises_ok
  split
  · exact raises_ok
  · exact (blamesValue _).bind fun _ => raises_ok

theorem levels_blame (levels : Nat) : Blames b (readOperand b levels) ∧
    Blames b (readFallback b levels) ∧ Blames b (readExpr b levels) := by
  induction levels with
  | zero =>
    rw [readOperand, readFallback, readExpr]
    exact ⟨blames_tooDeep, readSum_blames blames_tooDeep, blames_tooDeep⟩
  | succ levels ih =>
    obtain ⟨operand, fallback, expr⟩ := ih
    rw [readOperand, readFallback, readExpr]
    have body := readOperandBody_blames (readTypeExpr_blames levels) expr operand
    exact ⟨body, readFallbackBody_blames (readSum_blames body) fallback,
      readExprBody_blames fallback expr⟩

end Readers

/-- A text that is not read is at fault itself, and no assembly is missing for it. -/
theorem parse_raises (text : String) (maxDepth : Nat) :
    Raises (OfText maxDepth) (parse text maxDepth) := by
  refine (scan_raises text).bind fun scanned => ((levels_blame maxDepth).2.2 _).bind fun found => ?_
  split
  · exact raises_ok
  · exact raises_error .badSyntax

end Source
end DebugExpr
