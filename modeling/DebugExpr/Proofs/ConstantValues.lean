import DebugExpr.Proofs.CoherentConversions
import DebugExpr.Proofs.LoadedTypes
import DebugExpr.Proofs.StorageMachine

/-! Values of integer constants. A literal becomes a constant of the first built-in type in whose
range it lies, and a constant is converted by reading its value and making it anew for another type.
The bits are read by the mark of the type that they have. So the value stays the same along any
number of conversions, up to the instruction that pushes it, where the core library marks its types
as the built-in ones whose names they bear. -/
namespace DebugExpr

namespace Code

/-- The constant that a form pushes. -/
def Form.constant? (f : Form) : Option Slot :=
  f.opcode.constant? f.operand

theorem constant?_ite {condition : Prop} [Decidable condition] {f g : Form} {slot : Option Slot}
    (yes : condition → f.constant? = slot) (no : ¬condition → g.constant? = slot) :
    (if condition then f else g).constant? = slot := by
  split
  · exact yes ‹_›
  · exact no ‹_›

theorem constant?_int32 (value : Int32) :
    (Form.int32 value).constant? = some (.int32 value.toBitVec) := by
  -- the ten constants with instructions of their own
  iterate 10 refine constant?_ite (fun same => by rw [same]; rfl) fun _ => ?_
  refine constant?_ite (fun range => ?_) fun _ => rfl
  change some (Slot.int32 (value.toInt8.toBitVec.signExtend 32)) = _
  rw [signExtend_toInt8 range.1 range.2]

end Code

namespace Bound
open Metadata Source Code

/-- An integer as it is written, with the value and the types that it may have. -/
inductive IntegerLiteral : Expr → Int → List Primitive → Prop
  | plain (position : Nat) (value : UInt64) :
    IntegerLiteral (.literal position (.integer value)) value.toNat
      [.int32, .uint32, .int64, .uint64]
  | negated (position inner : Nat) (value : UInt64) :
    IntegerLiteral (.negate position (.literal inner (.integer value))) (-value.toNat)
      [.int32, .int64]

theorem find?_literalType (value : UInt64) :
    [.int32, .uint32, .int64, .uint64].find? (inRange · value.toNat) =
      some (Scope.literalType value.toNat) := by
  have bound := value.toNat_lt
  have last : inRange .uint64 value.toNat = true := by
    simp only [inRange, valueRange?, Option.any_some, Bool.and_eq_true, decide_eq_true_eq]
    omega
  unfold Scope.literalType
  cases int : inRange .int32 value.toNat with
  | true => simp [int]
  | false =>
    cases uint : inRange .uint32 value.toNat with
    | true => simp [int, uint]
    | false => cases long : inRange .int64 value.toNat <;> simp [int, uint, long, last]

namespace Scope
variable {s : Scope} {e : Expr} {t u : Term} {n : Int} {p : Primitive} {types : List Primitive}

/-- The term is a constant of the core library's type of a built-in type, and denotes the integer as
one of that type. -/
def Denotes (s : Scope) (t : Term) (p : Primitive) (n : Int) : Prop :=
  inRange p n = true ∧ ∃ c own, t = .constant c own ∧ s.snapshot.primitive p = .ok own ∧
    c.read? p = some n

/-- One constant is made anew from another, as one of a type. -/
def Refits (s : Scope) (t u : Term) : Prop :=
  ∃ target, s.refit t target = .ok (some u)

/-- The core library marks its integral types as the built-in types whose names they bear. -/
def MarksIntegers (s : Scope) : Prop :=
  ∀ p own, isInteger p = true → s.snapshot.primitive p = .ok own → own.primitive? = some p

theorem denotes_integerTerm (range : inRange p n = true) (made : s.integerTerm n p = .ok t) :
    s.Denotes t p n := by
  obtain ⟨own, named, rfl⟩ := integerTerm_eq_ok.mp made
  exact ⟨range, _, own, rfl, named, Constant.read?_integer range⟩

theorem inRange_of_find? (first : types.find? (inRange · n) = some p) : inRange p n = true := by
  simpa using List.find?_some first

theorem bind_integerLiteral (written : IntegerLiteral e n types) (bound : s.bind e = .ok t) :
    ∃ p, types.find? (inRange · n) = some p ∧ s.integerTerm n p = .ok t := by
  cases written with
  | plain position value => exact ⟨_, find?_literalType value, bound⟩
  | negated position inner value =>
    change s.negatedLiteral value.toNat = .ok t at bound
    unfold negatedLiteral at bound
    split at bound
    · rename_i int
      exact ⟨.int32, by simp [int], bound⟩
    · rename_i notInt
      split at bound
      · rename_i long
        exact ⟨.int64, by simp [notInt, long], bound⟩
      · cases bound

/-- A constant that was made for an integer of a marked type is made anew for the same integer. -/
theorem refit_integerTerm (marks : s.MarksIntegers) (range : inRange p n = true)
    (made : s.integerTerm n p = .ok t) (refits : s.Refits t u) :
    ∃ q, inRange q n = true ∧ s.integerTerm n q = .ok u := by
  obtain ⟨target, refits⟩ := refits
  obtain ⟨own, named, rfl⟩ := integerTerm_eq_ok.mp made
  have marked := marks p own (isInteger_of_inRange range) named
  obtain ⟨m, q, value, -, rangeAnew, madeAnew⟩ := refit_eq_some refits
  rw [integerValue?_integer marked range] at value
  cases value
  exact ⟨q, rangeAnew, madeAnew⟩

/-- All constants that come from one by conversions are made for the same integer. -/
theorem refits_integerTerm (marks : s.MarksIntegers) (range : inRange p n = true)
    (made : s.integerTerm n p = .ok t) (chain : Relation.ReflTransGen s.Refits t u) :
    ∃ q, inRange q n = true ∧ s.integerTerm n q = .ok u := by
  induction chain with
  | refl => exact ⟨p, range, made⟩
  | tail _ refits ih =>
    obtain ⟨q, range, made⟩ := ih
    exact refit_integerTerm marks range made refits

/-- An integer constant is pushed by one instruction, with the bits of the integer. -/
theorem pushConstant_integer (range : inRange p n = true) :
    ∃ f, pushConstant (.integer p n) = .form f ∧ f.constant? = some (slotOf (.integer p n)) := by
  have integer := isInteger_of_inRange range
  rw [slotOf_integer, Constant.integer]
  split
  · rename_i long
    have wide : bits p = 64 := (bits_eq_64 integer).mpr long
    refine ⟨_, rfl, ?_⟩
    rw [if_pos wide, ← Int64.toBitVec_ofInt]
    rfl
  · rename_i short
    have narrow : bits p ≠ 64 := mt (bits_eq_64 integer).mp short
    exact ⟨_, rfl, by rw [if_neg narrow, constant?_int32, Int32.toBitVec_ofInt]⟩

/-- An integer literal that is bound denotes its integer as one of the first type that contains it,
and so does what it is converted to, as one of the type asked for. Where the core library marks its
types, the integer is the same along any number of conversions, and its bits are those that the one
instruction for the last constant pushes. -/
theorem constants_keep_value (s : Scope) :
    (∀ e n types t, IntegerLiteral e n types → s.bind e = .ok t →
      ∃ p, types.find? (inRange · n) = some p ∧ s.Denotes t p n) ∧
    (∀ t target u, s.refit t target = .ok (some u) → ∃ n p, integerValue? t = some n ∧
      target.primitive? = some p ∧ s.Denotes u p n) ∧
    (s.MarksIntegers → ∀ e n types t u, IntegerLiteral e n types → s.bind e = .ok t →
      Relation.ReflTransGen s.Refits t u → ∃ p, s.Denotes u p n ∧ integerValue? u = some n ∧
        ∃ f, (lower u).value = .form f ∧ f.constant? = some (slotOf (.integer p n))) := by
  refine ⟨?_, ?_, ?_⟩
  · intro e n types t written bound
    obtain ⟨p, first, made⟩ := bind_integerLiteral written bound
    exact ⟨p, first, denotes_integerTerm (inRange_of_find? first) made⟩
  · intro t target u refits
    obtain ⟨n, p, value, marked, range, made⟩ := refit_eq_some refits
    exact ⟨n, p, value, marked, denotes_integerTerm range made⟩
  · intro marks e n types t u written bound chain
    obtain ⟨p, first, made⟩ := bind_integerLiteral written bound
    obtain ⟨q, range, made⟩ := refits_integerTerm marks (inRange_of_find? first) made chain
    have denotes := denotes_integerTerm range made
    obtain ⟨own, named, rfl⟩ := integerTerm_eq_ok.mp made
    have marked := marks q own (isInteger_of_inRange range) named
    exact ⟨q, denotes, integerValue?_integer marked range, pushConstant_integer range⟩

section Instance
open Sample

/-- The literal `3000000000`. -/
def threeBillion : Expr :=
  .literal 0 (.integer 3000000000)

theorem threeBillion_written :
    IntegerLiteral threeBillion 3000000000 [.int32, .uint32, .int64, .uint64] :=
  .plain 0 3000000000

/-- The literal is a `uint`, and the same number as a `long`. -/
theorem threeBillion_kept : ∃ t u,
    (∃ p, [.int32, .uint32, .int64, .uint64].find? (inRange · 3000000000) = some p ∧
      (scope [] []).Denotes t p 3000000000) ∧
    (∃ n p, integerValue? t = some n ∧ (type .int64).primitive? = some p ∧
      (scope [] []).Denotes u p n) ∧
    ∃ p, (scope [] []).Denotes u p 3000000000 ∧ integerValue? u = some 3000000000 ∧
      ∃ f, (lower u).value = .form f ∧ f.constant? = some (slotOf (.integer p 3000000000)) := by
  have marks : (scope [] []).MarksIntegers := by
    intro p own _ named
    obtain ⟨type, found, marked, -⟩ := primitive_marked p
    exact Except.ok.inj (found.symm.trans named) ▸ marked
  obtain ⟨found, answers, fits⟩ := exists_ok_of_any
    (x := (scope [] []).bind threeBillion >>= ((scope [] []).refit · (type .int64)))
    (p := fun found => found.isSome = true) (by decide +kernel)
  obtain ⟨t, bound, refits⟩ := bind_eq_ok.mp answers
  obtain ⟨u, rfl⟩ := Option.isSome_iff_exists.mp fits
  obtain ⟨literals, refitted, chains⟩ := constants_keep_value (scope [] [])
  exact ⟨t, u, literals _ _ _ t threeBillion_written bound, refitted t _ u refits,
    chains marks _ _ _ t u threeBillion_written bound (.single ⟨_, refits⟩)⟩

/-- The core library, but its `System.UInt32` is not marked as a built-in type. -/
def unmarked : Scope :=
  { scope [] [] with
    snapshot := Snapshot.empty.add <| .ofDefinitions core.identity <|
      Primitive.all.map fun p =>
        if p = .uint32 then { definition p with primitive := none } else definition p }

/-- There the literal is read by the wrong sign, so that it becomes another number as a `long`. -/
theorem threeBillion_lost : ∃ t u, unmarked.bind threeBillion = .ok t ∧
    unmarked.refit t (type .int64) = .ok (some u) ∧ integerValue? u = some (-1294967296) ∧
      (lower u).value = .form (.int64 (-1294967296)) := by
  obtain ⟨found, answers, fits⟩ := exists_ok_of_any
    (x := unmarked.bind threeBillion >>= (unmarked.refit · (type .int64)))
    (p := fun found => found.bind integerValue? = some (-1294967296)) (by decide +kernel)
  obtain ⟨t, bound, refits⟩ := bind_eq_ok.mp answers
  obtain ⟨u, rfl, value⟩ := Option.bind_eq_some_iff.mp fits
  refine ⟨t, u, bound, refits, value, ?_⟩
  obtain ⟨n, p, own, -, marked, range, named, rfl⟩ := refit_eq_ok_some.mp refits
  obtain rfl : .int64 = p := Option.some.inj marked
  obtain ⟨long, found, ownMark⟩ := exists_ok_of_any (x := unmarked.snapshot.primitive .int64)
    (p := fun long => long.primitive? = some .int64) (by decide +kernel)
  obtain rfl := Except.ok.inj (found.symm.trans named)
  rw [integerValue?_integer ownMark range] at value
  obtain rfl := Option.some.inj value
  rfl

end Instance

end Scope

end Bound

end DebugExpr
