import DebugExpr.Proofs.BoundTerms
import DebugExpr.Proofs.Evaluation

/-! Kinds of terms. The judgement `OfKind` holds of the terms that compute with integers and move
references where every operand is of the kind that its place asks for. Evaluating such a term ends
with a value of the kind or with a trap, and variables keep holding values of theirs. -/
namespace DebugExpr.Bound
open Metadata Source

/-- The types on which arithmetic is done: `int` and the wider ones. -/
def isWide : Primitive → Bool
  | .int32 | .uint32 | .int64 | .uint64 => true
  | _ => false

theorem isInteger_of_isWide {p : Primitive} (wide : isWide p = true) : isInteger p = true := by
  cases p <;> first | rfl | cases wide

/-- A term has values of a kind if the variables have values of theirs. -/
inductive Term.OfKind (kinds : Memory (Option Kind)) : Term → Kind → Prop
  | null : OfKind kinds .null .reference
  | constant {value : Constant} {type : ClosedType} {p : Primitive} {n : Int}
    (known : kind? type = some (.integer p)) (shown : value = .integer p n)
    (range : inRange p n = true) : OfKind kinds (.constant value type) (.integer p)
  | read {t : Term} {x : Variable} {kind : Kind} (isVariable : t.asVariable? = some x)
    (known : kinds.get? x = some (some kind)) : OfKind kinds t kind
  | numeric {operand : Term} {type source : ClosedType} {p q : Primitive}
    (ofOperand : OfKind kinds operand (.integer q)) (integer : isInteger p = true)
    (typed : operand.type? = some source) (marked : source.primitive? = some q) :
    OfKind kinds (.conversion (.numeric p) operand type) (.integer p)
  | nullLiteral {operand : Term} {type : ClosedType} (ofOperand : OfKind kinds operand .reference) :
    OfKind kinds (.conversion .nullLiteral operand type) .reference
  | implicitReference {operand : Term} {type : ClosedType}
    (ofOperand : OfKind kinds operand .reference) :
    OfKind kinds (.conversion .implicitReference operand type) .reference
  | negate {operand : Term} {p : Primitive} (ofOperand : OfKind kinds operand (.integer p))
    (wide : isWide p = true) : OfKind kinds (.negate operand) (.integer p)
  | binary {op : BinaryOp} {left right : Term} {type : ClosedType} {p : Primitive}
    (ofLeft : OfKind kinds left (.integer p)) (ofRight : OfKind kinds right (.integer p))
    (wide : isWide p = true) (marked : type.primitive? = some p) :
    OfKind kinds (.binary op left right type) (.integer p)
  | coalesce {left right : Term} {type : ClosedType} (ofLeft : OfKind kinds left .reference)
    (ofRight : OfKind kinds right .reference) : OfKind kinds (.coalesce left right type) .reference
  | assign {target value : Term} {type own : ClosedType} {x : Variable} {kind : Kind}
    (isVariable : target.asVariable? = some x) (known : kinds.get? x = some (some kind))
    (typed : target.type? = some own) (ofValue : OfKind kinds value kind) :
    OfKind kinds (.assign target value type) kind
  | compound {op : BinaryOp} {target value : Term} {type own : ClosedType} {x : Variable}
    {p : Primitive} (isVariable : target.asVariable? = some x)
    (known : kinds.get? x = some (some (.integer p))) (typed : target.type? = some own)
    (marked : own.primitive? = some p) (wide : isWide p = true)
    (ofValue : OfKind kinds value (.integer p)) :
    OfKind kinds (.compound op target value type) (.integer p)

variable {kinds : Memory (Option Kind)} {kind kind' : Kind} {memory : Memory Value} {t : Term}

/-- An answer of the kind, with variables that keep theirs, or an arithmetic trap. -/
def Delivers (kinds : Memory (Option Kind)) (kind : Kind) :
    Except Trap (Value × Memory Value) → Prop
  | .ok (value, memory) => value.Of kind ∧ memory.Typed kinds
  | .error trap => trap ≠ .undefined

theorem Delivers.bind {first : Except Trap (Value × Memory Value)}
    {next : Value × Memory Value → Except Trap (Value × Memory Value)}
    (delivers : Delivers kinds kind first)
    (further : ∀ value memory, value.Of kind → memory.Typed kinds →
      Delivers kinds kind' (next (value, memory))) : Delivers kinds kind' (first >>= next) := by
  match first with
  | .error _ => exact delivers
  | .ok (value, memory) => exact further value memory delivers.1 delivers.2

/-- The only values of an integral type are its integers. -/
theorem Value.Of.eq_integer {value : Value} {p : Primitive} (ofKind : value.Of (.integer p)) :
    ∃ n, value = .integer p n ∧ inRange p n = true := by
  match value with
  | .integer q n =>
    obtain ⟨same, range⟩ := ofKind
    cases same
    exact ⟨n, rfl, range⟩

theorem compute_inRange (op : BinaryOp) {p : Primitive} (integer : isInteger p = true) (a b : Int) :
    (∃ n, compute op p a b = .ok n ∧ inRange p n = true) ∨
      ∃ trap, compute op p a b = .error trap ∧ trap ≠ .undefined := by
  cases op with
  | add | subtract | multiply => exact .inl ⟨_, rfl, inRange_wrap integer _⟩
  | divide =>
    simp only [compute]
    split_ifs with zero range
    · exact .inr ⟨_, rfl, by decide⟩
    · exact .inl ⟨_, rfl, range⟩
    · exact .inr ⟨_, rfl, by decide⟩

theorem Value.compute_delivers (op : BinaryOp) {p : Primitive} {a b : Value}
    (integer : isInteger p = true) (ofLeft : a.Of (.integer p)) (ofRight : b.Of (.integer p)) :
    (∃ value, a.compute op b = .ok value ∧ value.Of (.integer p)) ∨
      ∃ trap, a.compute op b = .error trap ∧ trap ≠ .undefined := by
  obtain ⟨m, rfl, -⟩ := ofLeft.eq_integer
  obtain ⟨n, rfl, -⟩ := ofRight.eq_integer
  rcases compute_inRange op integer m n with ⟨k, computes, range⟩ | ⟨trap, traps, other⟩
  · exact .inl ⟨.integer p k, by simp [Value.compute, computes], rfl, range⟩
  · exact .inr ⟨trap, by rw [Value.compute, traps]; rfl, other⟩

theorem Term.eval_variable {x : Variable} (isVariable : t.asVariable? = some x)
    (memory : Memory Value) : t.eval memory = t.readVariable memory := by
  obtain ⟨index, type, rfl, rfl⟩ | ⟨index, type, rfl, rfl⟩ := Term.asVariable?_eq_some isVariable
  · simp [Term.eval]
  · simp [Term.eval]

theorem Term.readVariable_eq {x : Variable} (isVariable : t.asVariable? = some x)
    (typed : memory.Typed kinds) (known : kinds.get? x = some (some kind)) :
    ∃ value, memory.get? x = some value ∧ t.readVariable memory = .ok (value, memory) ∧
      value.Of kind := by
  obtain ⟨value, holds, ofKind⟩ := typed x _ known
  exact ⟨value, holds, by simp [Term.readVariable, isVariable, holds], ofKind kind rfl⟩

theorem Term.writeVariable_eq {x : Variable} (isVariable : t.asVariable? = some x) (value : Value)
    (memory : Memory Value) : t.writeVariable value memory = .ok (value, memory.set x value) := by
  simp [Term.writeVariable, isVariable]

theorem Term.constantValue_eq {type : ClosedType} {p : Primitive} {n m : Int}
    (known : kind? type = some (.integer p)) (range : inRange p n = true) (same : wrap p m = wrap p n) :
    Term.constantValue m type = .ok (.integer p n) := by
  simp [Term.constantValue, known, same, wrap_of_inRange range]

/-- Evaluation of a constant reads the integer back from its bits. -/
theorem Term.eval_constant {value : Constant} {type : ClosedType} {p : Primitive} {n : Int}
    (known : kind? type = some (.integer p)) (shown : value = .integer p n)
    (range : inRange p n = true) (memory : Memory Value) :
    (Term.constant value type).eval memory = .ok (.integer p n, memory) := by
  have integer := isInteger_of_inRange range
  subst shown
  by_cases long : p = .int64 ∨ p = .uint64
  · have same : wrap p (Int64.ofInt n).toInt = wrap p n := by
      rw [Int64.toInt_ofInt]
      rcases long with rfl | rfl <;> simp only [wrap, Primitive.isUnsigned, bits, if_true,
        Bool.false_eq_true, if_false, Int.bmod_def, Int64.size] <;> omega
    rw [Constant.integer, if_pos long, Term.eval, Term.constantValue_eq known range same]
    rfl
  · have same : wrap p (Int32.ofInt n).toInt = wrap p n := by
      rw [Int32.toInt_ofInt]
      cases p <;> try cases integer
      all_goals try exact absurd (by decide) long
      all_goals
        simp only [wrap, Primitive.isUnsigned, bits, if_true, Bool.false_eq_true, if_false,
          Int.bmod_def, Int32.size]
        omega
    rw [Constant.integer, if_neg long, Term.eval, Term.constantValue_eq known range same]
    rfl

/-- Evaluation keeps kinds. -/
theorem Term.OfKind.eval_delivers (ofKind : t.OfKind kinds kind) (typed : memory.Typed kinds) :
    Delivers kinds kind (t.eval memory) := by
  induction ofKind generalizing memory with
  | null => exact ⟨rfl, typed⟩
  | constant known shown range =>
    rw [Term.eval_constant known shown range]
    exact ⟨⟨rfl, range⟩, typed⟩
  | read isVariable known =>
    obtain ⟨value, -, reads, ofKind⟩ := Term.readVariable_eq isVariable typed known
    rw [Term.eval_variable isVariable, reads]
    exact ⟨ofKind, typed⟩
  | numeric _ integer _ _ ih =>
    rw [Term.eval]
    refine (ih typed).bind fun value memory ofKind typed => ?_
    obtain ⟨n, rfl, -⟩ := ofKind.eq_integer
    exact ⟨⟨rfl, inRange_wrap integer n⟩, typed⟩
  | nullLiteral _ ih | implicitReference _ ih =>
    rw [Term.eval]
    exact ih typed
  | negate _ wide ih =>
    rw [Term.eval]
    refine (ih typed).bind fun value memory ofKind typed => ?_
    obtain ⟨n, rfl, -⟩ := ofKind.eq_integer
    exact ⟨⟨rfl, inRange_wrap (isInteger_of_isWide wide) _⟩, typed⟩
  | @binary op left right type p _ _ wide _ ihLeft ihRight =>
    rw [Term.eval]
    refine (ihLeft typed).bind fun a memory ofLeft typed => ?_
    refine (ihRight typed).bind fun b memory ofRight typed => ?_
    rcases Value.compute_delivers op (isInteger_of_isWide wide) ofLeft ofRight with
      ⟨value, computes, ofKind⟩ | ⟨trap, traps, other⟩
    · dsimp only
      rw [computes]
      exact ⟨ofKind, typed⟩
    · dsimp only
      rw [traps]
      exact other
  | coalesce _ _ ihLeft ihRight =>
    rw [Term.eval]
    refine (ihLeft typed).bind fun a memory ofLeft typed => ?_
    dsimp only
    split
    · exact ihRight typed
    · exact ⟨ofLeft, typed⟩
  | assign isVariable known _ _ ih =>
    rw [Term.eval]
    refine (ih typed).bind fun value memory ofKind typed => ?_
    simp only [Term.writeVariable_eq isVariable]
    exact ⟨ofKind, typed.set known ofKind⟩
  | @compound op target value type own x p isVariable known _ _ wide _ ih =>
    rw [Term.eval, Term.eval_variable isVariable]
    obtain ⟨a, -, reads, ofTarget⟩ := Term.readVariable_eq isVariable typed known
    rw [reads]
    refine (ih typed).bind fun b memory ofValue typed => ?_
    rcases Value.compute_delivers op (isInteger_of_isWide wide) ofTarget ofValue with
      ⟨value, computes, ofKind⟩ | ⟨trap, traps, other⟩
    · dsimp only
      rw [computes]
      simp only [Term.writeVariable_eq isVariable]
      exact ⟨ofKind, typed.set known ofKind⟩
    · dsimp only
      rw [traps]
      exact other

end DebugExpr.Bound
