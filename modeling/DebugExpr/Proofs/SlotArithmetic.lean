import Mathlib.Tactic.SplitIfs
import DebugExpr.Code.TypedOpcode
import DebugExpr.Proofs.StackMachine
import DebugExpr.Proofs.ValueKinds

/-! Integers in slots. A slot holds an integer by its lowest bits, so unchecked arithmetic on slots
is arithmetic on the integers reduced into the range of their type, and a conversion of a slot
reduces the integer into the range of the target. -/
namespace DebugExpr.Code
open Metadata Source DebugExpr.Bound

section Bits
variable {v w : Nat} {m n : Int}

theorem ofInt_eq_iff : BitVec.ofInt w m = BitVec.ofInt w n ↔
    m % ((2 ^ w : Nat) : Int) = n % ((2 ^ w : Nat) : Int) := by
  have positive : (0 : Int) < ((2 ^ w : Nat) : Int) := Int.natCast_pos.mpr (Nat.two_pow_pos w)
  have first := Int.emod_nonneg m (Int.ne_of_gt positive)
  have second := Int.emod_nonneg n (Int.ne_of_gt positive)
  rw [← BitVec.toNat_inj, BitVec.toNat_ofInt, BitVec.toNat_ofInt]
  omega

theorem setWidth_ofInt (narrower : v ≤ w) : (BitVec.ofInt w n).setWidth v = BitVec.ofInt v n := by
  have positive : (0 : Int) < ((2 ^ w : Nat) : Int) := Int.natCast_pos.mpr (Nat.two_pow_pos w)
  have divides : ((2 ^ v : Nat) : Int) ∣ ((2 ^ w : Nat) : Int) :=
    Int.natCast_dvd_natCast.mpr (Nat.pow_dvd_pow 2 narrower)
  apply BitVec.eq_of_toInt_eq
  rw [BitVec.toInt_setWidth, BitVec.toNat_ofInt, BitVec.toInt_ofInt,
    Int.toNat_of_nonneg (Int.emod_nonneg n (Int.ne_of_gt positive)), Int.bmod_def, Int.bmod_def,
    Int.emod_emod_of_dvd n divides]

/-- Zeros in front make the integer that the bits mean without a sign. -/
theorem setWidth_ofInt_of_le (wider : v ≤ w) :
    (BitVec.ofInt v n).setWidth w = BitVec.ofInt w (n % ((2 ^ v : Nat) : Int)) := by
  have positive : (0 : Int) < ((2 ^ v : Nat) : Int) := Int.natCast_pos.mpr (Nat.two_pow_pos v)
  have bound : ((2 ^ v : Nat) : Int) ≤ ((2 ^ w : Nat) : Int) :=
    Int.ofNat_le.mpr (Nat.pow_le_pow_right (by decide) wider)
  have first := Int.emod_nonneg n (Int.ne_of_gt positive)
  have below := Int.emod_lt_of_pos n positive
  have same : (n % ((2 ^ v : Nat) : Int)) % ((2 ^ w : Nat) : Int) = n % ((2 ^ v : Nat) : Int) :=
    Int.emod_eq_of_lt first (by omega)
  apply BitVec.eq_of_toNat_eq
  rw [BitVec.toNat_setWidth, BitVec.toNat_ofInt, BitVec.toNat_ofInt, same, Nat.mod_eq_of_lt]
  omega

theorem signExtend_ofInt :
    (BitVec.ofInt v n).signExtend w = BitVec.ofInt w (n.bmod (2 ^ v)) := by
  rw [BitVec.signExtend, BitVec.toInt_ofInt]

end Bits

variable {p q : Primitive} {n : Int}

/-- Reducing an integer into the range of a type keeps the bits of the type. -/
theorem ofInt_wrap (p : Primitive) (n : Int) :
    BitVec.ofInt (bits p) (wrap p n) = .ofInt (bits p) n := by
  rw [ofInt_eq_iff, wrap]
  split
  · exact Int.emod_emod_of_dvd n (Int.dvd_refl _)
  · exact Int.bmod_emod

theorem resize_ofInt {w : Nat} (small : bits p ≤ 32) (narrower : bits p ≤ w) :
    resize p (BitVec.ofInt w n) = BitVec.ofInt 32 (wrap p n) := by
  unfold resize wrap
  rw [setWidth_ofInt narrower]
  split
  · rw [setWidth_ofInt_of_le small]
  · rw [signExtend_ofInt]

/-- The slot of an integer, as wide as its type on the stack. -/
theorem slotOf_integer (p : Primitive) (n : Int) :
    slotOf (.integer p n) = if bits p = 64 then .int64 (.ofInt 64 n) else .int32 (.ofInt 32 n) :=
  rfl

theorem bits_cases (p : Primitive) : bits p = 8 ∨ bits p = 16 ∨ bits p = 32 ∨ bits p = 64 := by
  cases p <;> decide

theorem toSmall_slotOf (q : Primitive) (n : Int) (small : bits p < 32) :
    (slotOf (.integer q n)).toSmall p = .ok (slotOf (.integer p (wrap p n))) := by
  rw [slotOf_integer, slotOf_integer, if_neg (by omega : ¬ bits p = 64)]
  split
  · rw [Slot.toSmall, resize_ofInt (by omega) (by omega)]
  · rw [Slot.toSmall, resize_ofInt (by omega) (by omega)]

theorem toInt32_slotOf (q : Primitive) (n : Int) (whole : bits p = 32) :
    (slotOf (.integer q n)).toInt32 = .ok (slotOf (.integer p (wrap p n))) := by
  have kept := ofInt_wrap p n
  rw [whole] at kept
  rw [slotOf_integer, slotOf_integer, if_neg (by omega : ¬ bits p = 64), kept]
  split
  · rw [Slot.toInt32, setWidth_ofInt (by decide)]
  · rw [Slot.toInt32]

/-- On the stack a short integer has as many bits as it needs. -/
theorem extend_short (range : inRange q n = true) (short : bits q ≠ 64) :
    (if q.isUnsigned then (BitVec.ofInt 32 n).setWidth 64 else (BitVec.ofInt 32 n).signExtend 64) =
      BitVec.ofInt 64 n := by
  have integer := isInteger_of_inRange range
  rw [setWidth_ofInt_of_le (by decide), signExtend_ofInt, Int.bmod_def]
  cases q <;> try cases integer
  all_goals try exact absurd rfl short
  all_goals
    simp only [inRange, valueRange?, Option.any_some, Bool.and_eq_true, decide_eq_true_eq] at range
    simp only [Primitive.isUnsigned, if_true, if_false, Bool.false_eq_true, ofInt_eq_iff]
    omega

theorem toInt64_slotOf (range : inRange q n = true) (long : bits p = 64) :
    (slotOf (.integer q n)).toInt64 (!q.isUnsigned) = .ok (slotOf (.integer p (wrap p n))) := by
  have kept := ofInt_wrap p n
  rw [long] at kept
  rw [slotOf_integer, slotOf_integer, if_pos long, kept]
  split
  · rw [Slot.toInt64]
  · rename_i short
    rw [Slot.toInt64, ← extend_short range short]
    cases q.isUnsigned <;> rfl

/-- The slot of an integer that lies in the range of a type of the same width on the stack. -/
theorem slotOf_eq (range : inRange q n = true) (integer : isInteger p = true)
    (keeps : convertNumeric? q p = none) :
    slotOf (.integer q n) = slotOf (.integer p (wrap p n)) := by
  have integerSource := isInteger_of_inRange range
  rw [slotOf_integer, slotOf_integer]
  cases q <;> try cases integerSource
  all_goals
    simp only [inRange, valueRange?, Option.any_some, Bool.and_eq_true, decide_eq_true_eq] at range
    cases p <;> first | exact absurd integer (by decide) | exact absurd keeps (by decide) | skip
  all_goals
    simp only [bits, wrap, Primitive.isUnsigned, if_true, if_false, Bool.false_eq_true,
      Nat.reduceEqDiff, Slot.int32.injEq, Slot.int64.injEq, ofInt_eq_iff, Int.bmod_def]
    omega

/-- Between integral types there are three kinds of conversions. -/
theorem execute_convert {op : Opcode} (kinds : Memory (Option Kind)) (c : Config)
    (integerSource : isInteger q = true) (integer : isInteger p = true)
    (converts : convertNumeric? q p = some op) :
    (bits p < 32 ∧ execute kinds op .none c = c.unary (Slot.toSmall p)) ∨
      (bits p = 32 ∧ execute kinds op .none c = c.unary Slot.toInt32) ∨
        (bits p = 64 ∧ execute kinds op .none c = c.unary (Slot.toInt64 (!q.isUnsigned))) := by
  cases q <;> first | exact absurd integerSource (by decide) | skip
  all_goals
    cases p <;> first
      | exact absurd integer (by decide)
      | cases converts; exact .inl ⟨by decide, rfl⟩
      | cases converts; exact .inr (.inl ⟨by decide, rfl⟩)
      | cases converts; exact .inr (.inr ⟨by decide, rfl⟩)
      | cases converts

section Arithmetic
variable {m : Int}

theorem toInt_ofInt (signed : p.isUnsigned = false) (range : inRange p n = true) :
    (BitVec.ofInt (bits p) n).toInt = n := by
  have stays := wrap_of_inRange range
  rw [wrap, if_neg (by simp [signed])] at stays
  rw [BitVec.toInt_ofInt, stays]

theorem toNat_ofInt (isUnsigned : p.isUnsigned = true) (range : inRange p n = true) :
    ((BitVec.ofInt (bits p) n).toNat : Int) = n := by
  have stays := wrap_of_inRange range
  have positive : (0 : Int) < ((2 ^ bits p : Nat) : Int) :=
    Int.natCast_pos.mpr (Nat.two_pow_pos (bits p))
  have above := Int.emod_nonneg n (Int.ne_of_gt positive)
  rw [wrap, if_pos isUnsigned] at stays
  rw [BitVec.toNat_ofInt, Int.toNat_of_nonneg above, stays]

/-- The range of a signed type is that of its bits. -/
theorem inRange_toInt (signed : p.isUnsigned = false) (integer : isInteger p = true)
    (b : BitVec (bits p)) : inRange p b.toInt = true := by
  have below := b.toInt_lt
  have above := b.le_toInt
  cases p <;> first | exact absurd signed (by decide) | exact absurd integer (by decide) | skip
  all_goals
    simp only [inRange, valueRange?, Option.any_some, Bool.and_eq_true, decide_eq_true_eq]
    simp only [bits, Nat.reduceSub] at below above ⊢
    omega

theorem inRange_toNat (isUnsigned : p.isUnsigned = true) (integer : isInteger p = true)
    (b : BitVec (bits p)) : inRange p b.toNat = true := by
  have below := b.isLt
  cases p <;> first | exact absurd isUnsigned (by decide) | exact absurd integer (by decide) | skip
  all_goals
    simp only [inRange, valueRange?, Option.any_some, Bool.and_eq_true, decide_eq_true_eq]
    simp only [bits] at below ⊢
    omega

/-- The only quotient out of range is that of the least integer by minus one. -/
theorem divide_least (signed : p.isUnsigned = false) (integer : isInteger p = true)
    (least : BitVec.ofInt (bits p) m = .intMin (bits p)) (range : inRange p m = true) :
    compute .divide p m (-1) = .error .overflow := by
  have value := congrArg BitVec.toInt least
  rw [toInt_ofInt signed range] at value
  subst value
  cases p <;> first | exact absurd signed (by decide) | exact absurd integer (by decide) | rfl

theorem divideSigned_ofInt (signed : p.isUnsigned = false) (rangeLeft : inRange p m = true)
    (rangeRight : inRange p n = true) :
    divideSigned (bits p) (.ofInt (bits p) m) (.ofInt (bits p) n) =
      (compute .divide p m n).map (BitVec.ofInt (bits p)) := by
  have integer := isInteger_of_inRange rangeLeft
  have left := toInt_ofInt signed rangeLeft
  have right := toInt_ofInt signed rangeRight
  unfold divideSigned
  split_ifs with zero overflow
  · rw [zero, BitVec.ofNat_eq_ofNat, BitVec.toInt_zero] at right
    subst right
    rfl
  · obtain ⟨least, minusOne⟩ := overflow
    obtain rfl : n = -1 := by
      rw [← right, minusOne]
      cases p <;> rfl
    rw [divide_least signed integer least rangeLeft]
    rfl
  · have nonzero : n ≠ 0 := by
      rintro rfl
      exact zero (by simp)
    have quotient := BitVec.toInt_sdiv_of_ne_or_ne (.ofInt (bits p) m) (.ofInt (bits p) n)
      (Decidable.not_and_iff_or_not.mp overflow)
    rw [left, right] at quotient
    have range : inRange p (m.tdiv n) = true := quotient ▸ inRange_toInt signed integer _
    have computes : compute .divide p m n = .ok (m.tdiv n) := by simp [compute, nonzero, range]
    rw [computes, ← quotient]
    exact congrArg Except.ok BitVec.ofInt_toInt.symm

theorem divideUnsigned_ofInt (isUnsigned : p.isUnsigned = true) (rangeLeft : inRange p m = true)
    (rangeRight : inRange p n = true) :
    divideUnsigned (bits p) (.ofInt (bits p) m) (.ofInt (bits p) n) =
      (compute .divide p m n).map (BitVec.ofInt (bits p)) := by
  have integer := isInteger_of_inRange rangeLeft
  have left := toNat_ofInt isUnsigned rangeLeft
  have right := toNat_ofInt isUnsigned rangeRight
  unfold divideUnsigned
  split_ifs with zero
  · rw [zero] at right
    obtain rfl : n = 0 := by simpa using right.symm
    rfl
  · have nonzero : n ≠ 0 := by
      rintro rfl
      exact zero (by simp)
    have quotient :
        (((BitVec.ofInt (bits p) m).udiv (.ofInt (bits p) n)).toNat : Int) = m.tdiv n := by
      rw [BitVec.udiv_eq, BitVec.toNat_udiv, Int.natCast_ediv, left, right,
        Int.tdiv_eq_ediv_of_nonneg (by omega)]
    have range : inRange p (m.tdiv n) = true := quotient ▸ inRange_toNat isUnsigned integer _
    have computes : compute .divide p m n = .ok (m.tdiv n) := by simp [compute, nonzero, range]
    rw [computes, ← quotient]
    refine congrArg Except.ok ?_
    rw [BitVec.ofInt_natCast, BitVec.ofNat_toNat, BitVec.setWidth_eq]

/-- Integers of a wide type fill their slots. -/
theorem onIntegers_slotOf {f : ∀ w, BitVec w → BitVec w → Except Trap (BitVec w)}
    {result : Except Trap Int} (wide : isWide p = true)
    (agrees : f (bits p) (.ofInt (bits p) m) (.ofInt (bits p) n) =
      result.map (BitVec.ofInt (bits p))) :
    (slotOf (.integer p m)).onIntegers f (slotOf (.integer p n)) =
      result.map fun k => slotOf (.integer p k) := by
  cases p <;> first | exact absurd wide (by decide) | skip
  all_goals
    simp only [bits] at agrees
    simp only [slotOf_integer, bits, Nat.reduceEqDiff, if_true, if_false, Slot.onIntegers, agrees]
    cases result <;> rfl

theorem execute_arithmetic (op : BinaryOp) (kinds : Memory (Option Kind)) (stack : List Slot)
    (memory : Memory Slot) (wide : isWide p = true) (rangeLeft : inRange p m = true)
    (rangeRight : inRange p n = true) :
    execute kinds (arithmetic op p.isUnsigned) .none
        ⟨slotOf (.integer p n) :: slotOf (.integer p m) :: stack, memory⟩ =
      (compute op p m n).map fun k => ⟨slotOf (.integer p k) :: stack, memory⟩ := by
  have onTop {f : ∀ w, BitVec w → BitVec w → Except Trap (BitVec w)} {result : Except Trap Int}
      (agrees : f (bits p) (.ofInt (bits p) m) (.ofInt (bits p) n) =
        result.map (BitVec.ofInt (bits p))) :
      Config.binary (Slot.onIntegers f)
          ⟨slotOf (.integer p n) :: slotOf (.integer p m) :: stack, memory⟩ =
        result.map fun k => ⟨slotOf (.integer p k) :: stack, memory⟩ := by
    simp only [Config.binary, onIntegers_slotOf wide agrees]
    cases result <;> rfl
  cases op with
  | add =>
    have sum : BitVec.ofInt (bits p) (wrap p (m + n)) = .ofInt _ m + .ofInt _ n := by
      rw [ofInt_wrap, BitVec.ofInt_add]
    exact onTop (congrArg Except.ok sum.symm)
  | subtract =>
    have difference : BitVec.ofInt (bits p) (wrap p (m - n)) = .ofInt _ m - .ofInt _ n := by
      rw [ofInt_wrap, Int.sub_eq_add_neg, BitVec.ofInt_add, BitVec.ofInt_neg, BitVec.sub_eq_add_neg]
    exact onTop (congrArg Except.ok difference.symm)
  | multiply =>
    have product : BitVec.ofInt (bits p) (wrap p (m * n)) = .ofInt _ m * .ofInt _ n := by
      rw [ofInt_wrap, BitVec.ofInt_mul]
    exact onTop (congrArg Except.ok product.symm)
  | divide =>
    cases isUnsigned : p.isUnsigned with
    | true => exact onTop (divideUnsigned_ofInt isUnsigned rangeLeft rangeRight)
    | false => exact onTop (divideSigned_ofInt isUnsigned rangeLeft rangeRight)

theorem neg_slotOf (wide : isWide p = true) (n : Int) :
    (slotOf (.integer p n)).neg = .ok (slotOf (.integer p (wrap p (-n)))) := by
  have kept := ofInt_wrap p (-n)
  cases p <;> first | exact absurd wide (by decide) | skip
  all_goals
    simp only [bits] at kept
    simp only [slotOf_integer, bits, Nat.reduceEqDiff, if_true, if_false, Slot.neg, kept,
      BitVec.ofInt_neg]

end Arithmetic

/-- A variable holds all of a value of its kind. -/
theorem held_slotOf {value : Value} {kind : Kind} (ofKind : value.Of kind) :
    (slotOf value).held (some kind) = .ok (slotOf value) := by
  cases value with
  | other => cases ofKind
  | reference object =>
    cases ofKind
    rfl
  | integer p n =>
    obtain ⟨rfl, range⟩ := ofKind
    have stays := wrap_of_inRange range
    rw [slotOf_integer]
    split
    · rename_i long
      simp [Slot.held, long]
    · rename_i short
      have widths := bits_cases p
      by_cases small : bits p < 32
      · simp only [Slot.held, small, if_true]
        rw [resize_ofInt (Nat.le_of_lt small) (Nat.le_of_lt small), stays]
      · have whole : bits p = 32 := by omega
        simp [Slot.held, whole]

/-- Values of a kind are told apart by their slots. -/
theorem slotOf_injective {value other : Value} {kind : Kind} (ofKind : value.Of kind)
    (ofKind' : other.Of kind) (same : slotOf value = slotOf other) : value = other := by
  cases value with
  | other => cases ofKind
  | reference object =>
    cases ofKind
    cases other with
    | other => cases ofKind'
    | integer => cases ofKind'.1
    | reference => simpa [slotOf] using same
  | integer p n =>
    obtain ⟨rfl, range⟩ := ofKind
    obtain ⟨m, rfl, range'⟩ := ofKind'.eq_integer
    have first := wrap_of_inRange range
    have second := wrap_of_inRange range'
    have integer := isInteger_of_inRange range
    have widths := bits_cases p
    -- both are in the range of the type, whose bits the slot holds
    have equal : BitVec.ofInt (bits p) n = .ofInt (bits p) m := by
      rw [slotOf_integer, slotOf_integer] at same
      split at same
      · rename_i long
        rw [long]
        exact Slot.int64.inj same
      · have narrowed := congrArg (BitVec.setWidth (bits p)) (Slot.int32.inj same)
        rwa [setWidth_ofInt (by omega), setWidth_ofInt (by omega)] at narrowed
    cases isUnsigned : p.isUnsigned with
    | true =>
      have values := congrArg (fun b : BitVec (bits p) => (b.toNat : Int)) equal
      simp only [toNat_ofInt isUnsigned range, toNat_ofInt isUnsigned range'] at values
      rw [values]
    | false =>
      have values := congrArg BitVec.toInt equal
      rw [toInt_ofInt isUnsigned range, toInt_ofInt isUnsigned range'] at values
      rw [values]

end DebugExpr.Code
