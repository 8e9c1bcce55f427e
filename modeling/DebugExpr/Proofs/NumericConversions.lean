import DebugExpr.Code.Lower
import DebugExpr.Proofs.SampleScope
import DebugExpr.Proofs.SlotArithmetic
import DebugExpr.Proofs.StorageMachine

/-! Conversions of integers. Whatever the types, the code of a conversion reduces an integer into
the range of the target, unless it makes a native unsigned integer of a negative one of at most 32
bits: that is extended by zeros. For a floating-point number the integer is read as its own type
says, unless the number is short: for that it is always read with a sign. -/
namespace DebugExpr.Code
open Metadata Source DebugExpr.Bound

def isNative (p : Primitive) : Bool :=
  p == .nativeInt || p == .nativeUInt

/-- The integral types, native ones included. -/
def isIntegral (p : Primitive) : Bool :=
  isInteger p || isNative p

/-- The bits that an integer of the type has on the stack. -/
def stackBits (p : Primitive) : Nat :=
  max 32 (bits p)

/-- An integer of a type as it stands on the stack. -/
def wordOf (p : Primitive) (n : Int) : Word :=
  if isNative p then .native (.ofInt 64 n) else .slot (slotOf (.integer p n))

/-- Whether a conversion to a floating-point number reads an integer without a sign. -/
def Opcode.readsUnsigned? : Opcode → Option Bool
  | convR4 | convR8 => some false
  | convRUn => some true
  | _ => none

variable {m : Machine} {p q : Primitive} {n : Int} {op : Opcode} {w w' : Word} {isUnsigned : Bool}

theorem Machine.execute_conversion (converts : w.convert? op = some w') (a : Activation) :
    m.execute op .none (a.push w) = .ok (a.push w') := by
  have transforms : m.known? op .none (a.push w) =
      ((w.convert? op).map fun w => .ok (a.push w)).or ((a.push w).calculate? op) := by
    cases op <;> first | rfl | cases converts
  rw [Machine.execute, transforms, converts]
  rfl

/-- The code of a conversion is an instruction or nothing. -/
theorem perform_convertTop {source : ClosedType} (marked : source.primitive? = some p)
    (target : ClosedType) (slot : Nat) (a : Activation) :
    (convertTop (.numeric q) (some source) target).perform m slot a =
      match convertNumeric? p q with
      | some op => m.execute op .none a
      | none => .ok a := by
  simp only [convertTop, Option.bind_some, marked]
  cases convertNumeric? p q <;> rfl

/-- The integer that is read from the bits of another one. -/
def reading (isUnsigned : Bool) (width : Nat) (n : Int) : Int :=
  if isUnsigned then n % ((2 ^ width : Nat) : Int) else n.bmod (2 ^ width)

theorem stackBits_cases (p : Primitive) :
    (bits p = 64 ∧ stackBits p = 64) ∨ (bits p ≠ 64 ∧ stackBits p = 32) := by
  cases p <;> decide

/-- An integer of 64 bits as one of the type. -/
def widened (q : Primitive) (b : BitVec 64) : Word :=
  if isNative q then .native b else .slot (.int64 b)

theorem wordOf_wide (long : bits q = 64) (n : Int) : wordOf q n = widened q (.ofInt 64 n) := by
  rw [wordOf, slotOf_integer, if_pos long]
  rfl

theorem wordOf_narrow (short : bits q ≠ 64) (n : Int) :
    wordOf q n = .slot (.int32 (.ofInt 32 n)) := by
  have notNative : ¬ isNative q = true := by
    revert short
    cases q <;> decide
  rw [wordOf, slotOf_integer, if_neg short, if_neg notNative]

theorem widened_inj {b b' : BitVec 64} : widened q b = widened q b' ↔ b = b' := by
  unfold widened
  split <;> simp

theorem integer?_wordOf (p : Primitive) (n : Int) (isUnsigned : Bool) :
    (wordOf p n).integer? isUnsigned = some (reading isUnsigned (stackBits p) n) := by
  have read (w : Nat) : (if isUnsigned then ((BitVec.ofInt w n).toNat : Int)
      else (BitVec.ofInt w n).toInt) = reading isUnsigned w n := by
    have positive : (0 : Int) < ((2 ^ w : Nat) : Int) := Int.natCast_pos.mpr (Nat.two_pow_pos w)
    rw [reading, BitVec.toNat_ofInt, BitVec.toInt_ofInt,
      Int.toNat_of_nonneg (Int.emod_nonneg n (Int.ne_of_gt positive))]
  rcases stackBits_cases p with ⟨long, same⟩ | ⟨short, same⟩
  · rw [same, ← read, wordOf_wide long, widened]
    split <;> rfl
  · rw [same, ← read, wordOf_narrow short]
    rfl

/-- Reading keeps the bits that are read. -/
theorem reading_emod {v width : Nat} (narrower : v ≤ width) (isUnsigned : Bool) (n : Int) :
    reading isUnsigned width n % ((2 ^ v : Nat) : Int) = n % ((2 ^ v : Nat) : Int) := by
  have divides : ((2 ^ v : Nat) : Int) ∣ ((2 ^ width : Nat) : Int) :=
    Int.natCast_dvd_natCast.mpr (Nat.pow_dvd_pow 2 narrower)
  have whole : reading isUnsigned width n % ((2 ^ width : Nat) : Int) =
      n % ((2 ^ width : Nat) : Int) := by
    rw [reading]
    split
    · exact Int.emod_emod_of_dvd n (Int.dvd_refl _)
    · exact Int.bmod_emod
  rw [← Int.emod_emod_of_dvd _ divides, whole, Int.emod_emod_of_dvd n divides]

/-- A value of a type is what is read unless its sign is taken for a bit or a bit for its sign. -/
theorem reading_eq_iff (value : wrap p n = n) (integral : isIntegral p = true)
    (isUnsigned : Bool) :
    reading isUnsigned (stackBits p) n = n ↔
      if isUnsigned then 0 ≤ n else n < 2 ^ (stackBits p - 1) := by
  cases p <;> first | exact absurd integral (by decide) | skip
  all_goals
    simp only [wrap, Primitive.isUnsigned, bits, if_true, if_false, Bool.false_eq_true,
      Int.bmod_def] at value
    cases isUnsigned <;> simp only [reading, stackBits, bits, Nat.max_def, Int.bmod_def,
      if_true, if_false, Bool.false_eq_true, Nat.reduceLeDiff, Nat.reduceSub] <;> omega

/-- Between integral types there are three kinds of conversions. One to 64 bits extends an integer
of 32 bits as its own type says, but for a native unsigned one always by zeros. -/
theorem convert?_selected (integralSource : isIntegral p = true) (integral : isIntegral q = true)
    (converts : convertNumeric? p q = some op) :
    (bits q < 32 ∧ ∀ w : Word, w.convert? op =
        (w.extended? false).map fun b => .slot (.int32 (resize q b))) ∨
      (bits q = 32 ∧ ∀ w : Word, w.convert? op =
        (w.extended? false).map fun b => .slot (.int32 (b.setWidth 32))) ∨
      (bits q = 64 ∧ ∃ isUnsigned : Bool,
        (bits p ≠ 64 → isUnsigned = (q == .nativeUInt || p.isUnsigned)) ∧
        ∀ w : Word, w.convert? op = (w.extended? isUnsigned).map (widened q)) := by
  cases p <;> first | exact absurd integralSource (by decide) | skip
  all_goals
    cases q <;> first
      | exact absurd integral (by decide)
      | cases converts; exact .inl ⟨by decide, fun _ => rfl⟩
      | cases converts; exact .inr (.inl ⟨by decide, fun _ => rfl⟩)
      | cases converts; exact .inr (.inr ⟨by decide, _, by decide, fun _ => rfl⟩)
      | cases converts

/-- Where nothing is done, the word is that of the target already. -/
theorem wordOf_unconverted (value : wrap p n = n) (integral : isIntegral p = true)
    (integralTarget : isIntegral q = true) (keeps : convertNumeric? p q = none) :
    wordOf p n = wordOf q (wrap q n) := by
  by_cases same : p = q
  · rw [← same, value]
  have fixed : isInteger p = true ∧ isInteger q = true ∧ isNative p = false ∧
      isNative q = false := by
    revert integral integralTarget keeps same
    cases p <;> cases q <;> decide
  obtain ⟨integer, integerTarget, notNative, notNativeTarget⟩ := fixed
  have range : inRange p n = true := value ▸ inRange_wrap integer n
  simp only [wordOf, notNative, notNativeTarget]
  exact congrArg Word.slot (slotOf_eq range integerTarget keeps)

/-- A narrow target takes the lowest bits of an integer, however it was read. -/
theorem resize_reading (narrow : bits q ≤ 32) (isUnsigned : Bool) :
    resize q (BitVec.ofInt 64 (reading isUnsigned (stackBits p) n)) =
      .ofInt 32 (wrap q n) := by
  have wide : bits q ≤ stackBits p := Nat.le_trans narrow (Nat.le_max_left 32 (bits p))
  have low := reading_emod wide isUnsigned n
  rw [resize_ofInt narrow (by omega)]
  congr 1
  simp only [wrap, Int.bmod_def, low]

theorem setWidth_reading (isUnsigned : Bool) :
    (BitVec.ofInt 64 (reading isUnsigned (stackBits p) n)).setWidth 32 = .ofInt 32 n := by
  rw [setWidth_ofInt (by decide), ofInt_eq_iff]
  exact reading_emod (Nat.le_max_left 32 (bits p)) isUnsigned n

theorem nonneg_of_isUnsigned (value : wrap p n = n) (isUnsigned : p.isUnsigned = true) : 0 ≤ n := by
  rw [wrap, if_pos isUnsigned] at value
  exact value ▸ Int.emod_nonneg n (Int.natCast_ne_zero.mpr (Nat.two_pow_pos (bits p)).ne')

theorem value_bounds (value : wrap p n = n) (integral : isIntegral p = true) :
    -2 ^ (stackBits p - 1) ≤ n ∧ (p.isUnsigned = true ∨ n < 2 ^ (stackBits p - 1)) := by
  cases p <;> first | exact absurd integral (by decide) | skip
  all_goals
    simp only [wrap, Primitive.isUnsigned, bits, if_true, if_false, Bool.false_eq_true,
      Int.bmod_def, true_or, false_or, and_true, stackBits, Nat.max_def, Nat.reduceLeDiff,
      Nat.reduceSub] at value ⊢
    omega

/-- An integer is extended to what it is unless a sign is taken for bits. -/
theorem ofInt_reading_iff (value : wrap p n = n) (integral : isIntegral p = true)
    {isUnsigned : Bool} (reads : bits p ≠ 64 → p.isUnsigned = true → isUnsigned = true) :
    BitVec.ofInt 64 (reading isUnsigned (stackBits p) n) = .ofInt 64 n ↔
      ¬ (isUnsigned = true ∧ bits p ≠ 64 ∧ n < 0) := by
  rw [ofInt_eq_iff]
  rcases stackBits_cases p with ⟨long, same⟩ | ⟨short, same⟩
  · have kept := reading_emod (Nat.le_refl 64) isUnsigned n
    rw [same]
    exact iff_of_true kept fun ⟨_, short, _⟩ => short long
  · obtain ⟨least, signed⟩ := value_bounds value integral
    have unchanged := reading_eq_iff value integral isUnsigned
    rw [same] at least signed unchanged ⊢
    cases isUnsigned with
    | false =>
      have notUnsigned : ¬ p.isUnsigned = true := by simpa using reads short
      rw [unchanged.mpr (signed.resolve_left notUnsigned)]
      simp
    | true =>
      by_cases negative : n < 0
      · have positive : n % ((2 ^ 32 : Nat) : Int) = n + 2 ^ 32 := by omega
        simp only [reading, if_true, positive]
        exact iff_of_false (by omega) (by simp [short, negative])
      · rw [unchanged.mpr (Int.not_lt.mp negative)]
        simp [negative]

/-- The code of a conversion between integral types computes the value reduced into the range of the
target, but for a negative one of at most 32 bits that becomes a native unsigned integer. -/
theorem convertTop_integral {source : ClosedType} (marked : source.primitive? = some p)
    (integral : isIntegral p = true) (integralTarget : isIntegral q = true) (value : wrap p n = n)
    (target : ClosedType) (slot : Nat) (a : Activation) :
    ∃ w, (convertTop (.numeric q) (some source) target).perform m slot (a.push (wordOf p n)) =
        .ok (a.push w) ∧
      (w = wordOf q (wrap q n) ↔ ¬ (q = .nativeUInt ∧ bits p ≠ 64 ∧ n < 0)) := by
  rw [perform_convertTop marked]
  cases converts : convertNumeric? p q with
  | none =>
    refine ⟨_, rfl, iff_of_true (wordOf_unconverted value integral integralTarget converts) ?_⟩
    rintro ⟨rfl, short, -⟩
    revert converts short integral
    cases p <;> decide
  | some op =>
    have extended (isUnsigned : Bool) : (wordOf p n).extended? isUnsigned =
        some (.ofInt 64 (reading isUnsigned (stackBits p) n)) := by
      rw [Word.extended?, integer?_wordOf]
      rfl
    -- a target of at most 32 bits is none of the native ones
    have narrowTarget (narrow : bits q ≤ 32) : ¬ (q = .nativeUInt ∧ bits p ≠ 64 ∧ n < 0) := by
      rintro ⟨rfl, -⟩
      exact absurd narrow (by decide)
    rcases convert?_selected integral integralTarget converts with
      ⟨small, same⟩ | ⟨whole, same⟩ | ⟨long, isUnsigned, reads, same⟩
    · have result := same (wordOf p n)
      have notLong : bits q ≠ 64 := by omega
      rw [extended, Option.map_some, resize_reading (Nat.le_of_lt small),
        ← wordOf_narrow notLong] at result
      exact ⟨_, Machine.execute_conversion result a,
        iff_of_true rfl (narrowTarget (Nat.le_of_lt small))⟩
    · have kept := ofInt_wrap q n
      have result := same (wordOf p n)
      have notLong : bits q ≠ 64 := by omega
      rw [whole] at kept
      rw [extended, Option.map_some, setWidth_reading, ← kept, ← wordOf_narrow notLong] at result
      exact ⟨_, Machine.execute_conversion result a,
        iff_of_true rfl (narrowTarget (Nat.le_of_eq whole))⟩
    · have kept := ofInt_wrap q n
      have result := same (wordOf p n)
      rw [long] at kept
      rw [extended, Option.map_some] at result
      refine ⟨_, Machine.execute_conversion result a, ?_⟩
      rw [wordOf_wide long, widened_inj, kept, ofInt_reading_iff value integral
        fun short isUnsigned => by simp [reads short, isUnsigned]]
      refine not_congr (and_congr_left fun ⟨short, negative⟩ => ?_)
      rw [reads short]
      have signed : p.isUnsigned = false := by
        by_contra unsigned
        have nonneg := nonneg_of_isUnsigned value (by simpa using unsigned)
        exact absurd negative (Int.not_lt.mpr nonneg)
      simp [signed]

/-- An integer becomes a floating-point number by one instruction. It reads the integer as its own
type says, but for a short number always with a sign. -/
theorem convertTop_float {source : ClosedType} (marked : source.primitive? = some p)
    (integral : isIntegral p = true) (float : isFloat q = true) (value : wrap p n = n)
    (target : ClosedType) :
    ∃ op isUnsigned, convertTop (.numeric q) (some source) target = .op op ∧
      op.readsUnsigned? = some isUnsigned ∧
      (isUnsigned = p.isUnsigned ↔ ¬ (q = .float32 ∧ p.isUnsigned = true)) ∧
      ((wordOf p n).integer? isUnsigned = some n ↔
        ¬ (q = .float32 ∧ 2 ^ (stackBits p - 1) ≤ n)) := by
  obtain ⟨-, signed⟩ := value_bounds value integral
  have code {op : Opcode} (converts : convertNumeric? p q = some op) :
      convertTop (.numeric q) (some source) target = .op op := by
    simp [convertTop, marked, converts]
  have differs : p ≠ q := by
    rintro rfl
    revert integral float
    cases p <;> decide
  have reads (isUnsigned : Bool) := reading_eq_iff value integral isUnsigned
  simp only [integer?_wordOf, Option.some.injEq, reads]
  cases q <;> first | exact absurd float (by decide) | skip
  case float32 =>
    refine ⟨.convR4, false, code (by simp [convertNumeric?, differs]), rfl, ?_, ?_⟩
    · cases p.isUnsigned <;> simp
    · simp
  case float64 =>
    cases isUnsigned : p.isUnsigned with
    | true =>
      refine ⟨.convRUn, true, code (by simp [convertNumeric?, differs, isUnsigned]), rfl, ?_, ?_⟩
      · simp
      · simpa using nonneg_of_isUnsigned value isUnsigned
    | false =>
      refine ⟨.convR8, false, code (by simp [convertNumeric?, differs, isUnsigned]), rfl, ?_, ?_⟩
      · simp
      · simpa [isUnsigned] using signed

/-- The code of a conversion of an integer leaves the integer reduced into the range of an integral
target, but for a negative one of at most 32 bits that becomes a native unsigned integer. For a
floating-point target the integer is read by its own signedness and hence as it is, but for one of
an unsigned type that becomes a short number: there its first bit is taken for a sign. -/
theorem conversion_correct_iff (m : Machine) {p q : Primitive} {n : Int} {source : ClosedType}
    (marked : source.primitive? = some p) (integral : isIntegral p = true) (value : wrap p n = n)
    (target : ClosedType) (slot : Nat) (a : Activation) :
    (isIntegral q = true →
      ∃ w, (convertTop (.numeric q) (some source) target).perform m slot (a.push (wordOf p n)) =
          .ok (a.push w) ∧
        (w = wordOf q (wrap q n) ↔ ¬ (q = .nativeUInt ∧ bits p ≠ 64 ∧ n < 0))) ∧
      (isFloat q = true →
        ∃ op isUnsigned, convertTop (.numeric q) (some source) target = .op op ∧
          op.readsUnsigned? = some isUnsigned ∧
          (isUnsigned = p.isUnsigned ↔ ¬ (q = .float32 ∧ p.isUnsigned = true)) ∧
          ((wordOf p n).integer? isUnsigned = some n ↔
            ¬ (q = .float32 ∧ 2 ^ (stackBits p - 1) ≤ n))) :=
  ⟨fun integralTarget => convertTop_integral marked integral integralTarget value target slot a,
    fun float => convertTop_float marked integral float value target⟩

section Instances
open Sample

/-- Minus one, with nothing else on the stack. -/
def minusOne : Activation :=
  ⟨[wordOf .int32 (-1)], fun _ => wordOf .int32 (-1)⟩

/-- Minus one becomes the greatest unsigned integer of 64 bits. -/
theorem minusOne_extended :
    (convertTop (.numeric .uint64) (some (type .int32)) (type .uint64)).perform (.bare ⟨[], []⟩) 0
        minusOne =
      .ok ⟨[wordOf .uint64 (2 ^ 64 - 1)], minusOne.storage⟩ := by
  have marked : (type .int32).primitive? = some .int32 := rfl
  have value : wrap .int32 (-1) = -1 := by decide
  obtain ⟨w, converts, correct⟩ := (conversion_correct_iff (q := .uint64) (.bare ⟨[], []⟩)
    marked rfl value (type .uint64) 0 ⟨[], minusOne.storage⟩).1 rfl
  obtain rfl := correct.mpr (by decide)
  exact converts

/-- The cast `(System.UIntPtr)x`. -/
def castToNative : Expr :=
  .cast 0 (.named false [("System", []), ("UIntPtr", [])]) (.name 0 "x" [])

/-- Minus one does not become the greatest native unsigned integer. -/
theorem minusOne_misconverted : ∃ t,
    (scope [] [⟨"x", type .int32⟩]).bind castToNative = .ok t ∧
      ((lower t).value.perform (.bare ⟨[some .int32], []⟩) 0 ⟨[], minusOne.storage⟩).map
          (·.stack) = .ok [.native 0xFFFFFFFF] ∧
      wordOf .nativeUInt (wrap .nativeUInt (-1)) ≠ .native 0xFFFFFFFF := by
  obtain ⟨t, bound, left⟩ : ∃ t, (scope [] [⟨"x", type .int32⟩]).bind castToNative = .ok t ∧
      ((lower t).value.perform (.bare ⟨[some .int32], []⟩) 0 ⟨[], minusOne.storage⟩).map
        (·.stack) = .ok [.native 0xFFFFFFFF] :=
    exists_ok_of_any (by decide +kernel)
  exact ⟨t, bound, left, by decide⟩

end Instances

end DebugExpr.Code
