import DebugExpr.Proofs.BoundTerms
import DebugExpr.Proofs.SampleScope

/-! Conversions made twice. What is converted without a cast becomes the same term by a cast, and
what is converted stays as it is when it is converted again. The converted term has the type that
was asked for, unless it is an integer constant: that gets the core library's type of the built-in
type as which the other one is marked. -/
namespace DebugExpr.Bound
open Metadata

section Values
variable {n : Int}

theorem toNat_toUInt32_ofInt (range : 0 ≤ n ∧ n ≤ 0xFFFFFFFF) :
    ((Int32.ofInt n).toUInt32.toNat : Int) = n := by
  change ((BitVec.ofInt 32 n).toNat : Int) = n
  rw [BitVec.toNat_ofInt]
  omega

theorem toNat_toUInt64_ofInt (range : 0 ≤ n ∧ n ≤ 0xFFFFFFFFFFFFFFFF) :
    ((Int64.ofInt n).toUInt64.toNat : Int) = n := by
  change ((BitVec.ofInt 64 n).toNat : Int) = n
  rw [BitVec.toNat_ofInt]
  omega

/-- The integer that a constant holds, read as one of a built-in type. -/
def Constant.read? (c : Constant) (p : Primitive) : Option Int :=
  match c with
  | .int32 value => some (if p = .uint32 then value.toUInt32.toNat else value.toInt)
  | .int64 value => some (if p = .uint64 then value.toUInt64.toNat else value.toInt)
  | .bool _ | .string _ => none

/-- A constant is read as the number that it is made of if the number lies in range. -/
theorem Constant.read?_integer {p : Primitive} (range : inRange p n = true) :
    (Constant.integer p n).read? p = some n := by
  cases p <;> first | exact absurd range Bool.false_ne_true | skip
  all_goals
    simp only [inRange, valueRange?, Option.any_some, Bool.and_eq_true, decide_eq_true_eq] at range
    simp only [Constant.integer, Constant.read?, reduceCtorEq, or_self, or_true, true_or, if_true,
      if_false, Option.some.injEq]
  case uint32 => exact toNat_toUInt32_ofInt range
  case uint64 => exact toNat_toUInt64_ofInt range
  case int64 => exact Int64.toInt_ofInt_of_le range.1 (by omega)
  all_goals exact Int32.toInt_ofInt_of_le (Int.le_trans (by decide) range.1) (by omega)

/-- A term that is a constant is read by the mark of its type. -/
theorem integerValue?_eq_read? {c : Constant} {p : Primitive} {type : ClosedType}
    (marked : type.primitive? = some p) : integerValue? (.constant c type) = c.read? p := by
  cases c <;> simp only [integerValue?, Constant.read?, marked, Option.some.injEq]
  all_goals split <;> rfl

theorem integerValue?_integer {p : Primitive} {type : ClosedType}
    (marked : type.primitive? = some p) (range : inRange p n = true) :
    integerValue? (.constant (.integer p n) type) = some n := by
  rw [integerValue?_eq_read? marked, Constant.read?_integer range]

end Values

/-- What becomes of a term that is converted in some way. -/
def Convertible.converted? (t : Term) (target : ClosedType) : Convertible → Option Term
  | .no => none
  | .same => some t
  | .via kind => some (.conversion kind t target)

namespace Scope
variable {s : Scope} {t t' : Term} {source target : ClosedType} {found : Convertible}
  {explicit : Bool} {n : Int} {p : Primitive}

/-- The core library's type that a term gets as an integer constant in the range of the target. -/
def RefitType (s : Scope) (t : Term) (target own : ClosedType) : Prop :=
  ∃ n p, integerValue? t = some n ∧ target.primitive? = some p ∧ inRange p n = true ∧
    s.snapshot.primitive p = .ok own

theorem integerTerm_eq_ok : s.integerTerm n p = .ok t ↔
    ∃ type, s.snapshot.primitive p = .ok type ∧ t = .constant (.integer p n) type := by
  unfold integerTerm Constant.integer
  split <;> simp only [bind_eq_ok, pure_eq_ok, eq_comm (b := t)]

theorem refit_eq_ok_some : s.refit t target = .ok (some t') ↔
    ∃ n p own, integerValue? t = some n ∧ target.primitive? = some p ∧ inRange p n = true ∧
      s.snapshot.primitive p = .ok own ∧ t' = .constant (.integer p n) own := by
  constructor
  · intro h
    obtain ⟨n, p, value, marked, range, made⟩ := refit_eq_some h
    obtain ⟨own, named, rfl⟩ := integerTerm_eq_ok.mp made
    exact ⟨n, p, own, value, marked, range, named, rfl⟩
  · rintro ⟨n, p, own, value, marked, range, named, rfl⟩
    have made : s.integerTerm n p = .ok (.constant (.integer p n) own) :=
      integerTerm_eq_ok.mpr ⟨own, named, rfl⟩
    simp only [refit, value, marked, range, if_true, made, ok_bind]
    rfl

/-- A term becomes a constant where it is one that fits, and else what its type allows. -/
theorem convert_eq_ok_iff : s.convert t target explicit = .ok t' ↔
    s.refit t target = .ok (some t') ∨ s.refit t target = .ok none ∧
      ∃ found, s.convertible t.type? target explicit = .ok found ∧
        found.converted? t target = some t' := by
  unfold convert convert?
  cases refits : s.refit t target with
  | error => simp
  | ok constant? =>
    cases constant? with
    | some constant => simp [ok_bind]
    | none =>
      cases converts : s.convertible t.type? target explicit with
      | error => simp
      | ok found => cases found <;> simp [ok_bind, Convertible.converted?]

/-! ### Casts -/

theorem convertibleValue_cast (h : s.convertibleValue source target false = .ok found)
    (converts : found ≠ .no) : s.convertibleValue source target true = .ok found := by
  unfold convertibleValue at h ⊢
  split at h
  · exact absurd (pure_eq_ok.mp h).symm converts
  · next reference =>
    rw [if_neg reference]
    split at h
    · next isObject => rwa [if_pos isObject]
    · next other =>
      rw [if_neg other]
      obtain ⟨inherits, answers, h⟩ := bind_eq_ok.mp h
      rw [answers, ok_bind]
      cases inherits with
      | true => exact h
      | false => exact absurd (pure_eq_ok.mp h).symm converts

theorem convertibleReference_cast (h : s.convertibleReference source target false = .ok found)
    (converts : found ≠ .no) : s.convertibleReference source target true = .ok found := by
  unfold convertibleReference at h ⊢
  split at h
  · next isObject => rwa [if_pos isObject]
  · next other =>
    rw [if_neg other]
    obtain ⟨inherits, answers, h⟩ := bind_eq_ok.mp h
    rw [answers, ok_bind]
    cases inherits with
    | true => exact h
    | false => exact absurd (pure_eq_ok.mp h).symm converts

theorem convertibleBoxed_cast (h : s.convertibleBoxed source target false = .ok found) :
    found = .no :=
  (pure_eq_ok.mp h).symm

/-- Between types of which one is not numeric, the way depends on where their values live. -/
theorem convertibleOther_cast
    (h : (if source.isValueType then s.convertibleValue source target false
      else if target.isReferenceType then s.convertibleReference source target false
      else s.convertibleBoxed source target false) = .ok found) (converts : found ≠ .no) :
    (if source.isValueType then s.convertibleValue source target true
      else if target.isReferenceType then s.convertibleReference source target true
      else s.convertibleBoxed source target true) = .ok found := by
  by_cases value : source.isValueType = true
  · rw [if_pos value] at h ⊢
    exact convertibleValue_cast h converts
  rw [if_neg value] at h ⊢
  by_cases reference : target.isReferenceType = true
  · rw [if_pos reference] at h ⊢
    exact convertibleReference_cast h converts
  · rw [if_neg reference] at h
    exact absurd (convertibleBoxed_cast h) converts

/-- A cast does what is done without one, where that is possible. -/
theorem convertible_cast {source : Option ClosedType}
    (h : s.convertible source target false = .ok found) (converts : found ≠ .no) :
    s.convertible source target true = .ok found := by
  cases source with
  | none => exact h
  | some source =>
    simp only [convertible] at h ⊢
    by_cases same : (source == target) = true
    · rwa [if_pos same] at h ⊢
    rw [if_neg same] at h ⊢
    cases narrow : numeric? source with
    | none =>
      simp only [narrow] at h ⊢
      exact convertibleOther_cast h converts
    | some p =>
      cases wide : numeric? target with
      | none =>
        simp only [narrow, wide] at h ⊢
        exact convertibleOther_cast h converts
      | some q =>
        simp only [narrow, wide, Bool.false_or, Bool.true_or] at h ⊢
        cases widens : (widenings p).contains q with
        | true => rwa [widens] at h
        | false =>
          rw [widens] at h
          exact absurd (Except.ok.inj h).symm converts

theorem convert_cast (h : s.convert t target false = .ok t') :
    s.convert t target true = .ok t' := by
  rw [convert_eq_ok_iff] at h ⊢
  refine h.imp_right (And.imp_right ?_)
  rintro ⟨found, converts, applies⟩
  refine ⟨found, convertible_cast converts ?_, applies⟩
  rintro rfl
  cases applies

/-! ### Converted terms -/

/-- A term that is no fitting constant has the type after its conversion, and is none then. -/
theorem converted_typed (apart : s.refit t target = .ok none)
    (converts : s.convertible t.type? target explicit = .ok found)
    (applies : found.converted? t target = some t') :
    s.refit t' target = .ok none ∧ ∃ type, t'.type? = some type ∧ (type == target) = true := by
  cases found with
  | no => cases applies
  | same =>
    obtain rfl : t = t' := Option.some.inj applies
    exact ⟨apart, convertible_same converts⟩
  | via kind =>
    obtain rfl : .conversion kind t target = t' := Option.some.inj applies
    exact ⟨rfl, target, rfl, target.beq_refl⟩

/-- Nothing is done to a term of the type, with a cast or without one. -/
theorem convert_of_typed (apart : s.refit t target = .ok none) (typed : t.type? = some source)
    (same : (source == target) = true) : s.convert t target explicit = .ok t := by
  have stays : s.convertible (some source) target explicit = .ok .same := if_pos same
  exact convert_eq_ok_iff.mpr (.inr ⟨apart, .same, typed ▸ stays, rfl⟩)

theorem RefitType.refit {own : ClosedType} (fits : s.RefitType t target own) :
    ∃ constant, s.refit t target = .ok (some constant) ∧ constant.type? = some own := by
  obtain ⟨n, p, value, marked, range, named⟩ := fits
  exact ⟨_, refit_eq_ok_some.mpr ⟨n, p, own, value, marked, range, named, rfl⟩, rfl⟩

/-- A cast makes the same term as the conversion without it. The term has the target as its type,
unless it is a constant in the range of the target: that has the core library's type, which may be
another one. Nothing is done to the term when it is converted again, if the core library's type is
marked as the target is. -/
theorem convert_coherent (h : s.convert t target explicit = .ok t') :
    (explicit = false → s.convert t target true = .ok t') ∧
      (∀ own, s.RefitType t target own → t'.type? = some own) ∧
      ((∀ own, s.RefitType t target own → (own == target) = true) →
        t'.type?.any (· == target) = true) ∧
      ((∀ own, s.RefitType t target own → own.primitive? = target.primitive?) →
        ∀ mode, s.convert t' target mode = .ok t') := by
  refine ⟨?_, ?_, ?_⟩
  · rintro rfl
    exact convert_cast h
  · intro own fits
    -- the conversion has one answer, and that is the constant
    obtain ⟨constant, refits, typed⟩ := fits.refit
    have made : s.convert t target explicit = .ok constant := convert_eq_ok_iff.mpr (.inl refits)
    rwa [Except.ok.inj (h.symm.trans made)]
  rcases convert_eq_ok_iff.mp h with refits | ⟨apart, found, converts, applies⟩
  · obtain ⟨n, p, own, value, marked, range, named, rfl⟩ := refit_eq_ok_some.mp refits
    have fits : s.RefitType t target own := ⟨n, p, value, marked, range, named⟩
    refine ⟨fun equal => equal own fits, fun mark mode => convert_eq_ok_iff.mpr (.inl ?_)⟩
    -- the new constant is read by the mark of its own type
    have reads := integerValue?_integer ((mark own fits).trans marked) range
    exact refit_eq_ok_some.mpr ⟨n, p, own, reads, marked, range, named, rfl⟩
  · obtain ⟨apart', type, typed, same⟩ := converted_typed apart converts applies
    exact ⟨fun _ => by rwa [typed], fun _ mode => convert_of_typed apart' typed same⟩

end Scope
end DebugExpr.Bound

namespace DebugExpr
open Metadata DebugExpr.Bound

namespace Sample

def five : Term :=
  .constant (.int32 5) (type .int32)

/-- A structure of another assembly that is marked as `int`. -/
def twin : TypeDefinition :=
  TypeDeclaration.define
    { fullName := "System.Int32", kind := .valueType, primitive := some .int32 }
    (.typeDefinition 1)

def twinType : ClosedType :=
  .named ⟨1⟩ twin []

def twins : Scope :=
  let stopped := scope [] []
  { stopped with
    snapshot := stopped.snapshot.add (.ofDefinitions ⟨"App", ⟨1, 0, 0, 0⟩, none, none⟩ [twin]) }

end Sample

/-- Where only the core library has built-in types, a number becomes one of the type. -/
theorem five_coherent : ∃ converted,
    (Sample.scope [] []).convert Sample.five (Sample.type .int64) false = .ok converted ∧
      (Sample.scope [] []).convert Sample.five (Sample.type .int64) true = .ok converted ∧
      converted.type?.any (· == Sample.type .int64) = true ∧
      ∀ mode, (Sample.scope [] []).convert converted (Sample.type .int64) mode = .ok converted := by
  obtain ⟨long, named, same, mark⟩ :=
    exists_ok_of_any (x := (Sample.scope [] []).snapshot.primitive .int64)
      (p := fun long => (long == Sample.type .int64) = true ∧ long.primitive? = some .int64)
      (by decide +kernel)
  have fitted : ∀ own, (Sample.scope [] []).RefitType Sample.five (Sample.type .int64) own →
      own = long := by
    rintro own ⟨n, p, -, marked, -, found⟩
    obtain rfl : .int64 = p := Option.some.inj marked
    exact Except.ok.inj (found.symm.trans named)
  have converts : ∃ converted,
      (Sample.scope [] []).convert Sample.five (Sample.type .int64) false = .ok converted :=
    ok_of_isSome (by decide +kernel)
  obtain ⟨converted, converts⟩ := converts
  obtain ⟨cast, -, typed, again⟩ := Scope.convert_coherent converts
  exact ⟨converted, converts, cast rfl, typed fun own fits => fitted own fits ▸ same,
    again fun own fits => (fitted own fits ▸ mark : own.primitive? = some .int64)⟩

/-- Where another assembly has a type that is marked as `int` too, a literal that is cast to it
stays one of the core library's type. -/
theorem five_misses_twin :
    Sample.twins.bind (.literal 0 (.integer 5)) = .ok Sample.five ∧
      ∃ converted, Sample.twins.convert Sample.five Sample.twinType true = .ok converted ∧
        converted.type?.any (· == Sample.twinType) = false :=
  ⟨rfl, exists_ok_of_any (by decide +kernel)⟩

end DebugExpr
