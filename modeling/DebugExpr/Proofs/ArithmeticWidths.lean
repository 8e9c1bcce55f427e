import DebugExpr.Proofs.BoundTypes
import DebugExpr.Proofs.LoadedTypes

/-! Widths of integer arithmetic. Operands are promoted, and then one may become an operand of the
other's type. A conversion between the types only widens, but a constant becomes one of any type in
whose range it lies, so a constant that was made wide by a cast is made narrow again beside a narrow
operand. -/
namespace DebugExpr.Bound
open Metadata Source

/-- The bits of the integral types on which arithmetic is done. -/
def bits? : Primitive → Option Nat
  | .int32 | .uint32 => some 32
  | .int64 | .uint64 => some 64
  | _ => none

/-- The bits of a type, if it is one on which integer arithmetic is done. -/
def width? (type : ClosedType) : Option Nat :=
  (numeric? type).bind bits?

namespace Term

def width? (t : Term) : Option Nat :=
  t.type?.bind Bound.width?

/-- A constant whose value the type of the other operand can hold. -/
def FitsBeside (t other : Term) : Prop :=
  ∃ n p, integerValue? t = some n ∧ (other.type?.bind numeric?) = some p ∧ inRange p n = true

end Term

namespace Scope

/-- An operand of arithmetic. -/
def operand (s : Scope) (expr : Expr) : Except Error Term := do
  s.promote (← s.bind expr)

variable {s : Scope} {t t' other : Term} {source wanted : ClosedType} {p q : Primitive} {m n : Nat}

theorem bits?_le_of_widens (widens : q ∈ widenings p) (known : bits? p = some m)
    (knownWide : bits? q = some n) : m ≤ n := by
  have wider : ∀ q ∈ widenings p, ∀ n ∈ bits? q, m ≤ n := by
    cases p <;> cases known <;> decide
  exact wider q widens n knownWide

/-- Without a cast a numeric type becomes a wider one alone. -/
theorem convertible_widens {kind : Conversion} (numericSource : numeric? source = some p)
    (numericWanted : numeric? wanted = some q)
    (h : s.convertible (some source) wanted false = .ok (.via kind)) : q ∈ widenings p := by
  simp only [convertible, numericSource, numericWanted] at h
  split at h
  · simp at h
  · by_contra narrow
    simp [narrow, Convertible.when] at h

theorem width?_of_definition? (same : source.definition? = wanted.definition?) :
    width? source = width? wanted := by
  simp only [width?, numeric?, ClosedType.primitive?, same]

/-- An operand that is converted to the type of the other one gets no narrower, unless it is a
constant that the type can hold. -/
theorem Converted.width_le (tokens : ∀ m ∈ s.snapshot.modules, (m.types.map (·.token)).Nodup)
    (converted : s.Converted t wanted false t') (typed : t.type? = some source)
    (typedOther : other.type? = some wanted) (loads : s.snapshot.Loads source)
    (loadsWanted : s.snapshot.Loads wanted) (known : width? source = some m)
    (knownWanted : width? wanted = some n) : m ≤ n ∨ n < m ∧ t.FitsBeside other := by
  obtain ⟨p, numericSource, bitsSource⟩ := Option.bind_eq_some_iff.mp known
  obtain ⟨q, numericWanted, bitsWanted⟩ := Option.bind_eq_some_iff.mp knownWanted
  cases converted with
  | refit refits =>
    obtain ⟨k, p, value, marked, range, -⟩ := refit_eq_some refits
    have marked' := (Option.filter_eq_some_iff.mp numericWanted).1
    obtain rfl : p = q := Option.some.inj (marked.symm.trans marked')
    have fits : t.FitsBeside other := ⟨k, p, value, by simpa [typedOther] using numericWanted, range⟩
    exact (Nat.lt_or_ge n m).symm.imp_right fun narrower => ⟨narrower, fits⟩
  | same typed' same =>
    obtain rfl := Option.some.inj (typed.symm.trans typed')
    have widths := width?_of_definition? (Snapshot.definition?_eq tokens loads loadsWanted same)
    rw [known, knownWanted] at widths
    exact .inl (Nat.le_of_eq (Option.some.inj widths))
  | via converts =>
    rw [typed] at converts
    have widens := convertible_widens numericSource numericWanted converts
    exact .inl (bits?_le_of_widens widens bitsSource bitsWanted)

/-- Integer arithmetic is as wide as its wider operand, unless that operand is a constant that the
type of the other one can hold. -/
theorem binary_width (tokens : ∀ m ∈ s.snapshot.modules, (m.types.map (·.token)).Nodup)
    (frame : s.frame.Held s.snapshot) {position : Nat} {op : BinaryOp} {left right : Expr}
    (bound : s.bind (.binary position op left right) = .ok t) :
    ∃ l r, s.operand left = .ok l ∧ s.operand right = .ok r ∧
      ∀ m n, l.width? = some m → r.width? = some n →
        t.width? = some (max m n) ∨
          (n < m ∧ l.FitsBeside r ∧ t.width? = some n) ∨
          (m < n ∧ r.FitsBeside l ∧ t.width? = some m) := by
  obtain ⟨l₀, bindsLeft, h⟩ := bind_eq_ok.mp bound
  obtain ⟨l, promotesLeft, h⟩ := bind_eq_ok.mp h
  obtain ⟨r₀, bindsRight, h⟩ := bind_eq_ok.mp h
  obtain ⟨r, promotesRight, h⟩ := bind_eq_ok.mp h
  have heldLeft := promote_held (bind_held frame bindsLeft) promotesLeft
  have heldRight := promote_held (bind_held frame bindsRight) promotesRight
  refine ⟨l, r, bind_eq_ok.mpr ⟨l₀, bindsLeft, promotesLeft⟩,
    bind_eq_ok.mpr ⟨r₀, bindsRight, promotesRight⟩, ?_⟩
  intro m n knownLeft knownRight
  obtain ⟨leftType, rightType, typedLeft, typedRight, -, -, made⟩ := arithmetic_eq_ok h
  have loadsLeft := (heldLeft.type_holds typedLeft).loads
  have loadsRight := (heldRight.type_holds typedRight).loads
  simp only [Term.width?, typedLeft, typedRight, Option.bind_some] at knownLeft knownRight
  rcases made with ⟨same, rfl⟩ | ⟨l', converts, rfl⟩ | ⟨r', converts, rfl⟩
  · -- types that count as equal are of one width since tokens tell the loaded definitions apart
    have widths := width?_of_definition? (Snapshot.definition?_eq tokens loadsLeft loadsRight same)
    rw [knownLeft, knownRight] at widths
    obtain rfl := Option.some.inj widths
    have known : (Term.binary op l r leftType).width? = some m := knownLeft
    exact .inl (by rw [known, max_self])
  · have known : (Term.binary op l' r rightType).width? = some n := knownRight
    rcases (convert?_eq_some converts).width_le tokens typedLeft typedRight loadsLeft loadsRight
      knownLeft knownRight with wider | ⟨narrower, fits⟩
    · exact .inl (by rw [known, max_eq_right wider])
    · exact .inr (.inl ⟨narrower, fits, known⟩)
  · have known : (Term.binary op l r' leftType).width? = some m := knownLeft
    rcases (convert?_eq_some converts).width_le tokens typedRight typedLeft loadsRight loadsLeft
      knownRight knownLeft with wider | ⟨narrower, fits⟩
    · exact .inl (by rw [known, max_eq_left wider])
    · exact .inr (.inr ⟨narrower, fits, known⟩)

end Scope

section Instances
open Sample

/-- Adds a narrow and a wide variable: `x + y`. -/
def sum : Expr :=
  .binary 0 .add (.name 0 "x" []) (.name 0 "y" [])

theorem sum_width : ∃ t,
    (scope [] [⟨"x", type .int32⟩, ⟨"y", type .int64⟩]).bind sum = .ok t ∧ t.width? = some 64 := by
  have builtIn : ∀ slot ∈ [FrameLocal.mk "x" (type .int32), ⟨"y", type .int64⟩],
      ∃ p, slot.type = type p := by simp
  obtain ⟨t, bound, -⟩ : ∃ t,
      (scope [] [⟨"x", type .int32⟩, ⟨"y", type .int64⟩]).bind sum = .ok t ∧ t.type?.isSome :=
    exists_ok_of_any (by decide +kernel)
  obtain ⟨l, r, bindsLeft, bindsRight, widths⟩ :=
    Scope.binary_width (scope_regular (by simp) builtIn).tokens (frame_held (by simp) builtIn) bound
  obtain ⟨l', bindsLeft', narrow, notConstant⟩ : ∃ l,
      (scope [] [⟨"x", type .int32⟩, ⟨"y", type .int64⟩]).operand (.name 0 "x" []) = .ok l ∧
        l.width? = some 32 ∧ integerValue? l = none :=
    exists_ok_of_any (by decide +kernel)
  obtain ⟨r', bindsRight', wide, notConstant'⟩ : ∃ r,
      (scope [] [⟨"x", type .int32⟩, ⟨"y", type .int64⟩]).operand (.name 0 "y" []) = .ok r ∧
        r.width? = some 64 ∧ integerValue? r = none :=
    exists_ok_of_any (by decide +kernel)
  obtain rfl := Except.ok.inj (bindsLeft.symm.trans bindsLeft')
  obtain rfl := Except.ok.inj (bindsRight.symm.trans bindsRight')
  rcases widths 32 64 narrow wide with widest | ⟨-, ⟨n, p, value, -⟩, -⟩ | ⟨-, ⟨n, p, value, -⟩, -⟩
  · exact ⟨t, bound, widest⟩
  · cases notConstant.symm.trans value
  · cases notConstant'.symm.trans value

/-- Adds a variable to a constant that a cast has made wide: `(long)5 + x`. -/
def castSum : Expr :=
  .binary 0 .add (.cast 0 (.keyword .int64) (.literal 0 (.integer 5))) (.name 0 "x" [])

/-- Arithmetic may be narrower than an operand. -/
theorem castSum_narrows : ¬ ∀ (s : Scope),
    (∀ m ∈ s.snapshot.modules, (m.types.map (·.token)).Nodup) → s.frame.Held s.snapshot →
      ∀ position op left right t l r m n, s.bind (.binary position op left right) = .ok t →
        s.operand left = .ok l → s.operand right = .ok r → l.width? = some m →
        r.width? = some n → ∃ w, t.width? = some w ∧ m ≤ w ∧ n ≤ w := by
  intro widens
  have builtIn : ∀ slot ∈ [FrameLocal.mk "x" (type .int32)], ∃ p, slot.type = type p := by simp
  obtain ⟨t, bound, narrow⟩ : ∃ t,
      (scope [] [⟨"x", type .int32⟩]).bind castSum = .ok t ∧ t.width? = some 32 :=
    exists_ok_of_any (by decide +kernel)
  obtain ⟨l, bindsLeft, wideLeft⟩ : ∃ l, (scope [] [⟨"x", type .int32⟩]).operand
      (.cast 0 (.keyword .int64) (.literal 0 (.integer 5))) = .ok l ∧ l.width? = some 64 :=
    exists_ok_of_any (by decide +kernel)
  obtain ⟨r, bindsRight, narrowRight⟩ : ∃ r,
      (scope [] [⟨"x", type .int32⟩]).operand (.name 0 "x" []) = .ok r ∧ r.width? = some 32 :=
    exists_ok_of_any (by decide +kernel)
  obtain ⟨w, typed, wide, -⟩ := widens _ (scope_regular (by simp) builtIn).tokens
    (frame_held (by simp) builtIn) _ _ _ _ t l r 64 32 bound bindsLeft bindsRight wideLeft
    narrowRight
  obtain rfl := Option.some.inj (narrow.symm.trans typed)
  exact absurd wide (by decide)

end Instances

end DebugExpr.Bound
