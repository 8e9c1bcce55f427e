import DebugExpr.Proofs.AssemblyNames
import Mathlib.Data.List.Induction
import Mathlib.Data.Nat.Digits.Defs

/-! Numerals and the numbers that they mean. A reader of numerals accepts a row of digits of its
base, leading zeros and either case included, and answers the number that the row means. The digits
in which a number is printed mean the number. -/
namespace DebugExpr.Text

/-- The sixteen digits, each at the place of its value. -/
def digitRow : List Char :=
  "0123456789abcdef".toList

/-- The value of a digit, in either case. -/
def digitValue (c : Char) : Nat :=
  digitRow.idxOf c.toLower

/-- The number that a row of digits means, of which the last one counts the ones. -/
def numeralValue (base : Nat) (digits : List Char) : Nat :=
  Nat.ofDigits base (digits.reverse.map digitValue)

theorem numeralValue_append (base : Nat) (digits : List Char) (c : Char) :
    numeralValue base (digits ++ [c]) = numeralValue base digits * base + digitValue c := by
  simp only [numeralValue, List.reverse_append, List.reverse_singleton, List.singleton_append,
    List.map_cons, Nat.ofDigits_cons]
  rw [Nat.add_comm, Nat.mul_comm]

/-- What holds of the ASCII characters and of all others holds of every character. -/
theorem forall_char {P : Char → Prop} (ascii : ∀ n < 128, P (Char.ofNat n))
    (other : ∀ c : Char, 128 ≤ c.toNat → P c) (c : Char) : P c := by
  by_cases small : c.toNat < 128
  · simpa using ascii c.toNat small
  · exact other c (Nat.le_of_not_lt small)

theorem digitValue_of_isDigit : ∀ c : Char, c.isDigit = true →
    digitValue c = c.toNat - '0'.toNat := by
  refine forall_char (by decide +kernel) fun c wide digit => ?_
  have := toNat_of_isDigit digit
  omega

theorem hexValue?_eq : ∀ c : Char,
    hexValue? c = if c.toLower ∈ digitRow then some (digitValue c) else none := by
  refine forall_char (by decide +kernel) fun c wide => ?_
  -- the ranges of digits and letters all end below
  have above (mark : Char) (ascii : mark.toNat < 128) : ¬c ≤ mark := fun le =>
    absurd (Nat.lt_of_le_of_lt le ascii) (Nat.not_lt.mpr wide)
  have noDigit : c.isDigit = false := by
    rw [Bool.eq_false_iff]
    intro digit
    have := toNat_of_isDigit digit
    omega
  have same : c.toLower = c := dif_neg fun upper => above 'Z' (by decide) upper.2
  have outside : c ∉ digitRow := by
    have ascii : digitRow.all (·.toNat < 128) = true := by decide
    exact fun inside => absurd (of_decide_eq_true (List.all_eq_true.mp ascii c inside))
      (Nat.not_lt.mpr wide)
  have small : ¬c ≤ 'f' := above 'f' (by decide)
  have capital : ¬c ≤ 'F' := above 'F' (by decide)
  simp only [hexValue?, noDigit, small, capital, same, outside, and_false, if_false,
    Bool.false_eq_true]

/-- A decimal numeral is a digit or more, and means the number of the row. -/
theorem decimal?_eq_some {digits : List Char} {n : Nat} : decimal? digits = some n ↔
    digits ≠ [] ∧ (∀ c ∈ digits, c.isDigit = true) ∧ numeralValue 10 digits = n := by
  have value : (∀ c ∈ digits, c.isDigit = true) →
      Nat.ofDigitChars 10 digits 0 = numeralValue 10 digits := by
    induction digits using List.reverseRecOn with
    | nil => exact fun _ => rfl
    | append_singleton digits c ih =>
      intro decimal
      rw [numeralValue_append, ← ih fun d member => decimal d (by simp [member]),
        digitValue_of_isDigit c (decimal c (by simp))]
      simp [Nat.ofDigitChars, Nat.mul_comm]
  simp only [decimal?, Option.ite_none_right_eq_some, Bool.and_eq_true, Bool.not_eq_true',
    List.isEmpty_eq_false_iff, List.all_eq_true, Option.some.injEq, and_assoc]
  exact and_congr_right fun _ => and_congr_right fun decimal => by rw [value decimal]

/-- A hexadecimal numeral is a digit or more, and means the number of the row. -/
theorem hexadecimal?_eq_some {digits : List Char} {n : Nat} : hexadecimal? digits = some n ↔
    digits ≠ [] ∧ (∀ c ∈ digits, c.toLower ∈ digitRow) ∧ numeralValue 16 digits = n := by
  have value : digits.foldlM (fun value c => (hexValue? c).map (value * 16 + ·)) 0 = some n ↔
      (∀ c ∈ digits, c.toLower ∈ digitRow) ∧ numeralValue 16 digits = n := by
    induction digits using List.reverseRecOn generalizing n with
    | nil => simp [numeralValue]
    | append_singleton digits c ih =>
      have last (value : Nat) : (hexValue? c).map (value * 16 + ·) = some n ↔
          c.toLower ∈ digitRow ∧ value * 16 + digitValue c = n := by
        simp [hexValue?_eq]
      simp only [List.foldlM_append, List.foldlM_cons, List.foldlM_nil, bind_pure,
        Option.bind_eq_bind, Option.bind_eq_some_iff, last]
      rw [numeralValue_append, List.forall_mem_append, List.forall_mem_singleton]
      constructor
      · rintro ⟨front, read, isDigit, sum⟩
        obtain ⟨digits, rfl⟩ := ih.mp read
        exact ⟨⟨digits, isDigit⟩, sum⟩
      · rintro ⟨⟨digits, isDigit⟩, sum⟩
        exact ⟨_, ih.mpr ⟨digits, rfl⟩, isDigit, sum⟩
  cases digits with
  | nil => simp [hexadecimal?]
  | cons c digits => simpa [hexadecimal?] using value

theorem digitValue_digitChar : ∀ n < 16, digitValue (Nat.digitChar n) = n := by
  decide

theorem numeralValue_toDigits {base : Nat} (least : 1 < base) (most : base ≤ 16) (n : Nat) :
    numeralValue base (Nat.toDigits base n) = n := by
  induction n using Nat.strongRecOn with
  | ind n ih =>
    by_cases small : n < base
    · rw [Nat.toDigits_of_lt_base small]
      simpa [numeralValue] using digitValue_digitChar n (by omega)
    · have below : n / base < n := Nat.div_lt_self (by omega) least
      have last : n % base < base := Nat.mod_lt n (by omega)
      rw [Nat.toDigits_of_base_le least (by omega), numeralValue_append, ih _ below,
        digitValue_digitChar _ (by omega), Nat.mul_comm, Nat.div_add_mod]

theorem mem_digitRow_of_mem_toDigits {n : Nat} {c : Char} (member : c ∈ Nat.toDigits 16 n) :
    c.toLower ∈ digitRow := by
  have digits : ∀ n < 16, (Nat.digitChar n).toLower ∈ digitRow := by decide
  induction n using Nat.strongRecOn with
  | ind n ih =>
    by_cases small : n < 16
    · rw [Nat.toDigits_of_lt_base small, List.mem_singleton] at member
      exact member ▸ digits n small
    · rw [Nat.toDigits_of_base_le (by decide) (by omega), List.mem_append,
        List.mem_singleton] at member
      rcases member with front | rfl
      · exact ih (n / 16) (by omega) front
      · exact digits _ (by omega)

end DebugExpr.Text
