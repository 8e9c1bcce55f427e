import DebugExpr.Proofs.LoadedTypes

/-! Kinds of simple bound terms. In a regular scope types that count as the same have values of one
kind, so binding leaves every operand of a simple term with values of the kind that its place asks
for. -/
namespace DebugExpr.Bound
open Metadata Source

variable {type found wanted : ClosedType} {kind kind' : Kind} {p : Primitive}

theorem kind?_of_definition? (same : found.definition? = wanted.definition?) :
    kind? found = kind? wanted := by
  have values : found.isValueType = wanted.isValueType := by simp only [ClosedType.isValueType, same]
  have marks : found.primitive? = wanted.primitive? := by simp only [ClosedType.primitive?, same]
  unfold kind? numeric?
  rw [values, marks]

/-- A type of integers is marked as theirs. -/
theorem primitive?_of_kind? (known : kind? type = some (.integer p)) : type.primitive? = some p := by
  unfold kind? at known
  split at known
  · obtain ⟨q, filtered, same⟩ := Option.map_eq_some_iff.mp known
    cases same
    exact (Option.filter_eq_some_iff.mp filtered).1
  · split at known <;> cases known

theorem isInteger_of_kind? (known : kind? type = some (.integer p)) : isInteger p = true := by
  unfold kind? at known
  split at known
  · obtain ⟨q, filtered, same⟩ := Option.map_eq_some_iff.mp known
    cases same
    exact (Option.filter_eq_some_iff.mp filtered).2
  · split at known <;> cases known

theorem isNumeric_of_isInteger (integer : isInteger p = true) : p.isNumeric = true := by
  cases p <;> first | rfl | cases integer

theorem isPromoted_or_isWide (integer : isInteger p = true) :
    Scope.isPromoted p = true ∨ isWide p = true := by
  cases p <;> first | exact .inl rfl | exact .inr rfl | cases integer

/-- A numeric type with a kind has integers for values. -/
theorem kind?_of_numeric? (known : kind? type = some kind) (numeric : numeric? type = some p) :
    kind = .integer p := by
  cases kind with
  | integer q =>
    have marked := (Option.filter_eq_some_iff.mp numeric).1
    rw [primitive?_of_kind? known] at marked
    rw [Option.some.inj marked]
  | reference =>
    unfold kind? at known
    split at known
    · obtain ⟨q, -, same⟩ := Option.map_eq_some_iff.mp known
      cases same
    · simp [numeric] at known

theorem kind?_of_isReferenceType (known : kind? type = some kind)
    (reference : type.isReferenceType = true) : kind = .reference := by
  have notValue : type.isValueType = false := by simpa [ClosedType.isReferenceType] using reference
  unfold kind? at known
  rw [notValue] at known
  split at known
  · contradiction
  · split at known
    · cases known
    · exact (Option.some.inj known).symm

theorem integer?_eq_some (known : (integer? type).isSome = true) :
    ∃ p, kind? type = some (.integer p) := by
  unfold integer? at known
  split at known
  · exact ⟨_, ‹_›⟩
  · cases known

namespace Scope
variable {s : Scope}

/-- What is known of the variables of the frame. The receiver and arguments by reference are not
accessed by simple terms. -/
def kinds (s : Scope) : Memory (Option Kind) where
  locals := s.frame.locals.map fun slot => kind? slot.type
  arguments := (if s.frame.isStatic then [] else [none]) ++
    s.frame.parameters.map fun slot => if slot.byRef then none else kind? slot.type

theorem kinds_local {index : Nat} {slot : FrameLocal}
    (found : s.frame.locals[index]? = some slot) :
    s.kinds.get? (.local index) = some (kind? slot.type) := by
  simp [kinds, Memory.get?, found]

theorem kinds_argument {i : Nat} {slot : FrameParameter}
    (found : s.frame.parameters[i]? = some slot) (byValue : slot.byRef = false) :
    s.kinds.get? (.argument (i + if s.frame.isStatic then 0 else 1)) = some (kind? slot.type) := by
  cases static : s.frame.isStatic <;> simp [kinds, Memory.get?, found, byValue, static]

/-- The core library's built-in type has the kind of the type that it stands for. -/
theorem kind?_of_primitive (regular : s.Regular) (named : s.snapshot.primitive p = .ok found)
    (known : kind? found = some kind) (marked : wanted.primitive? = some p)
    (knownWanted : kind? wanted = some kind') : kind = kind' := by
  obtain ⟨own, value⟩ := regular.marked p found named
  cases kind with
  | integer q =>
    obtain rfl : p = q := Option.some.inj (own.symm.trans (primitive?_of_kind? known))
    have numeric : numeric? wanted = some p := by
      simp [numeric?, marked, isNumeric_of_isInteger (isInteger_of_kind? known)]
    exact (kind?_of_numeric? knownWanted numeric).symm
  | reference =>
    cases kind' with
    | reference => rfl
    | integer q =>
      obtain rfl : p = q := Option.some.inj (marked.symm.trans (primitive?_of_kind? knownWanted))
      have integer := isInteger_of_kind? knownWanted
      have numeric : numeric? found = some p := by
        simp [numeric?, own, isNumeric_of_isInteger integer]
      exact kind?_of_numeric? known numeric

/-- A type has the kind of the type that it stands for. -/
theorem Stands.kind_eq (regular : s.Regular) (stands : s.Stands found wanted)
    (loads : s.snapshot.Loads found) (loadsWanted : s.snapshot.Loads wanted)
    (known : kind? found = some kind) (knownWanted : kind? wanted = some kind') : kind = kind' := by
  rcases stands with same | ⟨p, marked, named⟩
  · have same := Snapshot.definition?_eq regular.tokens loads loadsWanted same
    rw [kind?_of_definition? same, knownWanted] at known
    exact (Option.some.inj known).symm
  · exact kind?_of_primitive regular named known marked knownWanted

/-- Promotion leaves no integers of the small types. -/
theorem Promoted.isWide (regular : s.Regular) (promoted : s.Promoted type)
    (loads : s.snapshot.Loads type) (known : kind? type = some (.integer p)) :
    isWide p = true := by
  have marked := primitive?_of_kind? known
  have integer := isInteger_of_kind? known
  by_contra small
  have numeric : numeric? type = some p := by
    simp [numeric?, marked, isNumeric_of_isInteger integer]
  have narrow := (isPromoted_or_isWide integer).resolve_right small
  obtain ⟨int, named, stands⟩ := promoted p numeric narrow
  obtain ⟨own, value⟩ := regular.marked .int32 int named
  have knownInt : kind? int = some (.integer .int32) := by
    simp [kind?, own, value, Primitive.isValueType, isInteger, valueRange?]
  have same := stands.kind_eq regular loads (loads_primitive named) known knownInt
  cases same
  exact small rfl

end Scope

variable {s : Scope} {t : Term}

/-- A simple term that may be written is a variable. -/
theorem asVariable?_of_isSimple (simple : isSimple t = true) (assignable : t.isAssignable = true) :
    ∃ x, t.asVariable? = some x := by
  cases t with
  | localVar index => exact ⟨.local index, rfl⟩
  | parameter index byRef =>
    cases byRef with
    | false => exact ⟨.argument index, rfl⟩
    | true => cases simple
  | pseudo | field | element => cases simple
  | _ => cases assignable

theorem Term.OfKind.known {kinds : Memory (Option Kind)} {x : Variable}
    (ofKind : t.OfKind kinds kind) (isVariable : t.asVariable? = some x) :
    kinds.get? x = some (some kind) := by
  cases ofKind with
  | read isVariable' known =>
    obtain rfl : x = _ := Option.some.inj (isVariable.symm.trans isVariable')
    exact known
  | _ => cases isVariable

/-- A term with values of a kind, which is that of its type. Only references have no type. -/
def Term.Kinded (s : Scope) (t : Term) (kind : Kind) : Prop :=
  t.OfKind s.kinds kind ∧ (∀ type, t.type? = some type → kind? type = some kind) ∧
    (t.type? = none → kind = .reference)

/-- The operand of a place that asks for a type. -/
theorem Scope.Yields.kind_eq {kind kind' : Kind} (regular : s.Regular) (yields : s.Yields t wanted)
    (kinded : t.Kinded s kind) (loads : s.TypeLoaded t) (loadsWanted : s.snapshot.Loads wanted)
    (known : kind? wanted = some kind') : kind = kind' := by
  obtain ⟨found, typed, stands⟩ := yields
  exact stands.kind_eq regular (loads found typed) loadsWanted (kinded.2.1 found typed) known

theorem Term.Kinded.read {x : Variable} {type : ClosedType} (isVariable : t.asVariable? = some x)
    (held : s.kinds.get? x = some (some kind)) (typed : t.type? = some type)
    (known : kind? type = some kind) : t.Kinded s kind := by
  refine ⟨.read isVariable held, ?_, by simp [typed]⟩
  intro type' typed'
  obtain rfl : type = type' := Option.some.inj (typed.symm.trans typed')
  exact known

/-- A node with a type of the kind. -/
theorem Term.Kinded.node {type : ClosedType} (ofKind : t.OfKind s.kinds kind)
    (typed : t.type? = some type) (known : kind? type = some kind) : t.Kinded s kind := by
  refine ⟨ofKind, ?_, by simp [typed]⟩
  intro type' typed'
  obtain rfl : type = type' := Option.some.inj (typed.symm.trans typed')
  exact known

theorem kinded_constant {value : Constant} {type : ClosedType} (regular : s.Regular)
    (formed : (Term.constant value type).Formed s)
    (simple : isSimple (.constant value type) = true) :
    ∃ kind, (Term.constant value type).Kinded s kind := by
  have integer {value : Constant} {q p : Primitive} {n : Int} (known : kind? type = some (.integer q))
      (range : inRange p n = true) (shown : value = .integer p n)
      (named : s.snapshot.primitive p = .ok type) :
      ∃ kind, (Term.constant value type).Kinded s kind := by
    obtain ⟨own, -⟩ := regular.marked p type named
    obtain rfl : p = q := Option.some.inj (own.symm.trans (primitive?_of_kind? known))
    exact ⟨.integer p, .node (.constant known shown range) rfl known⟩
  cases value with
  | bool | string => cases simple
  | int32 | int64 =>
    obtain ⟨q, known⟩ := integer?_eq_some simple
    obtain ⟨p, n, range, shown, named⟩ := formed
    exact integer known range shown named

theorem kinded_conversion {conversion : Conversion} {operand : Term} {type : ClosedType}
    (formed : (Term.conversion conversion operand type).Formed s)
    (simple : isSimple (.conversion conversion operand type) = true)
    (kinded : operand.Kinded s kind) :
    ∃ kind', (Term.conversion conversion operand type).Kinded s kind' := by
  cases conversion with
  | numeric p =>
    obtain ⟨source, q, typed, numericSource, numeric⟩ := formed
    obtain ⟨p', known⟩ := integer?_eq_some simple
    obtain rfl : p' = p := by simpa using kind?_of_numeric? known numeric
    have knownSource := kinded.2.1 source typed
    obtain rfl := kind?_of_numeric? knownSource numericSource
    exact ⟨.integer p', .node (.numeric kinded.1 (isInteger_of_kind? known) typed
      (primitive?_of_kind? knownSource)) rfl known⟩
  | nullLiteral =>
    obtain rfl := kinded.2.2 formed.1
    exact ⟨.reference, .node (.nullLiteral kinded.1) rfl (by simpa [isSimple] using simple)⟩
  | implicitReference =>
    obtain ⟨source, typed, reference, -⟩ := formed
    obtain rfl := kind?_of_isReferenceType (kinded.2.1 source typed) reference
    exact ⟨.reference, .node (.implicitReference kinded.1) rfl (by simpa [isSimple] using simple)⟩
  | boxing | unboxing | explicitReference => cases simple

theorem kinded_negate {operand : Term} (regular : s.Regular)
    (formed : (Term.negate operand).Formed s) (loaded : s.TypeLoaded operand)
    (kinded : operand.Kinded s kind) : (Term.negate operand).Kinded s kind := by
  obtain ⟨type, p, typed, numeric, -, promoted⟩ := formed
  have known := kinded.2.1 type typed
  obtain rfl := kind?_of_numeric? known numeric
  have wide := promoted.isWide regular (loaded type typed) known
  exact .node (.negate kinded.1 wide) typed known

theorem kinded_binary {op : BinaryOp} {left right : Term} {type : ClosedType} (regular : s.Regular)
    (formed : (Term.binary op left right type).Formed s)
    (simple : isSimple (.binary op left right type) = true) (loads : s.snapshot.Loads type)
    (loadedLeft : s.TypeLoaded left) (loadedRight : s.TypeLoaded right)
    (kindedLeft : left.Kinded s kind) (kindedRight : right.Kinded s kind') :
    ∃ kind, (Term.binary op left right type).Kinded s kind := by
  obtain ⟨yieldsLeft, yieldsRight, -, promoted⟩ := formed
  obtain ⟨p, known⟩ := integer?_eq_some simple
  obtain rfl := yieldsLeft.kind_eq regular kindedLeft loadedLeft loads known
  obtain rfl := yieldsRight.kind_eq regular kindedRight loadedRight loads known
  exact ⟨.integer p, .node (.binary kindedLeft.1 kindedRight.1 (promoted.isWide regular loads known)
    (primitive?_of_kind? known)) rfl known⟩

theorem kinded_coalesce {left right : Term} {type : ClosedType} (regular : s.Regular)
    (formed : (Term.coalesce left right type).Formed s)
    (simple : isSimple (.coalesce left right type) = true) (loads : s.snapshot.Loads type)
    (loadedLeft : s.TypeLoaded left) (loadedRight : s.TypeLoaded right)
    (kindedLeft : left.Kinded s kind) (kindedRight : right.Kinded s kind') :
    (Term.coalesce left right type).Kinded s .reference := by
  have known : kind? type = some .reference := by simpa [isSimple] using simple
  obtain rfl := formed.1.kind_eq regular kindedLeft loadedLeft loads known
  obtain rfl := formed.2.kind_eq regular kindedRight loadedRight loads known
  exact .node (.coalesce kindedLeft.1 kindedRight.1) rfl known

theorem kinded_assign {target value : Term} {type : ClosedType} (regular : s.Regular)
    (formed : (Term.assign target value type).Formed s) (simpleTarget : isSimple target = true)
    (loads : s.snapshot.Loads type) (loadedValue : s.TypeLoaded value)
    (kindedTarget : target.Kinded s kind) (kindedValue : value.Kinded s kind') :
    (Term.assign target value type).Kinded s kind := by
  obtain ⟨assignable, typed, yields, -⟩ := formed
  obtain ⟨x, isVariable⟩ := asVariable?_of_isSimple simpleTarget assignable
  have known := kindedTarget.2.1 type typed
  obtain rfl := yields.kind_eq regular kindedValue loadedValue loads known
  exact .node (.assign isVariable (kindedTarget.1.known isVariable) typed kindedValue.1) rfl known

theorem kinded_compound {op : BinaryOp} {target value : Term} {type : ClosedType}
    (regular : s.Regular) (formed : (Term.compound op target value type).Formed s)
    (simple : isSimple (.compound op target value type) = true) (simpleTarget : isSimple target = true)
    (loads : s.snapshot.Loads type) (loadedValue : s.TypeLoaded value)
    (kindedTarget : target.Kinded s kind) (kindedValue : value.Kinded s kind') :
    (Term.compound op target value type).Kinded s kind := by
  obtain ⟨assignable, typed, yields, -⟩ := formed
  obtain ⟨x, isVariable⟩ := asVariable?_of_isSimple simpleTarget assignable
  have known := kindedTarget.2.1 type typed
  obtain rfl := yields.kind_eq regular kindedValue loadedValue loads known
  obtain ⟨p, knownInteger, wide⟩ : ∃ p, kind? type = some (.integer p) ∧ isWide p = true := by
    obtain ⟨p, integer, wide⟩ := (Option.any_eq_true ..).mp simple
    obtain ⟨q, known⟩ := integer?_eq_some (by rw [integer]; rfl)
    simp only [integer?, known, Option.some.injEq] at integer
    exact ⟨p, integer ▸ known, wide⟩
  obtain rfl := Option.some.inj (known.symm.trans knownInteger)
  exact .node (.compound isVariable (kindedTarget.1.known isVariable) typed
    (primitive?_of_kind? known) wide kindedValue.1) rfl known

/-- Every simple term that binding leaves has values of a kind. -/
theorem kinded_of_simple (regular : s.Regular) (t : Term) (formed : t.WellFormed s)
    (loaded : t.All s.TypeLoaded) (simple : t.Simple) : ∃ kind, t.Kinded s kind := by
  induction t using Term.induction with
  | null => exact ⟨.reference, .null, by simp [Term.type?], fun _ => rfl⟩
  | constant value type => exact kinded_constant regular formed.node simple.node
  | localVar index type =>
    obtain ⟨slot, found, rfl⟩ := formed.node
    obtain ⟨kind, known⟩ := Option.isSome_iff_exists.mp simple.node
    exact ⟨kind, .read rfl (by rw [Scope.kinds_local found, known]) rfl known⟩
  | parameter index byRef type =>
    obtain ⟨i, slot, rfl, found, rfl, rfl⟩ := formed.node
    cases byRef : slot.byRef with
    | true =>
      have node := simple.node
      rw [byRef] at node
      cases node
    | false =>
      have node := simple.node
      rw [byRef] at node
      obtain ⟨kind, known⟩ := Option.isSome_iff_exists.mp node
      exact ⟨kind, .read rfl (by rw [Scope.kinds_argument found byRef, known]) rfl known⟩
  | conversion conversion operand type ih =>
    have part : operand ∈ (Term.conversion conversion operand type).parts := by simp [Term.parts]
    obtain ⟨kind, kinded⟩ := ih (formed.parts _ part) (loaded.parts _ part) (simple.parts _ part)
    exact kinded_conversion formed.node simple.node kinded
  | negate operand ih =>
    have part : operand ∈ (Term.negate operand).parts := by simp [Term.parts]
    obtain ⟨kind, kinded⟩ := ih (formed.parts _ part) (loaded.parts _ part) (simple.parts _ part)
    exact ⟨kind, kinded_negate regular formed.node (loaded.parts _ part).node kinded⟩
  | binary op left right type ihLeft ihRight =>
    have first : left ∈ (Term.binary op left right type).parts := by simp [Term.parts]
    have second : right ∈ (Term.binary op left right type).parts := by simp [Term.parts]
    obtain ⟨kind, kindedLeft⟩ :=
      ihLeft (formed.parts _ first) (loaded.parts _ first) (simple.parts _ first)
    obtain ⟨kind', kindedRight⟩ :=
      ihRight (formed.parts _ second) (loaded.parts _ second) (simple.parts _ second)
    exact kinded_binary regular formed.node simple.node (loaded.node type rfl)
      (loaded.parts _ first).node (loaded.parts _ second).node kindedLeft kindedRight
  | coalesce left right type ihLeft ihRight =>
    have first : left ∈ (Term.coalesce left right type).parts := by simp [Term.parts]
    have second : right ∈ (Term.coalesce left right type).parts := by simp [Term.parts]
    obtain ⟨kind, kindedLeft⟩ :=
      ihLeft (formed.parts _ first) (loaded.parts _ first) (simple.parts _ first)
    obtain ⟨kind', kindedRight⟩ :=
      ihRight (formed.parts _ second) (loaded.parts _ second) (simple.parts _ second)
    exact ⟨.reference, kinded_coalesce regular formed.node simple.node (loaded.node type rfl)
      (loaded.parts _ first).node (loaded.parts _ second).node kindedLeft kindedRight⟩
  | assign target value type ihTarget ihValue =>
    have first : target ∈ (Term.assign target value type).parts := by simp [Term.parts]
    have second : value ∈ (Term.assign target value type).parts := by simp [Term.parts]
    obtain ⟨kind, kindedTarget⟩ :=
      ihTarget (formed.parts _ first) (loaded.parts _ first) (simple.parts _ first)
    obtain ⟨kind', kindedValue⟩ :=
      ihValue (formed.parts _ second) (loaded.parts _ second) (simple.parts _ second)
    exact ⟨kind, kinded_assign regular formed.node (simple.parts _ first).node
      (loaded.node type rfl) (loaded.parts _ second).node kindedTarget kindedValue⟩
  | compound op target value type ihTarget ihValue =>
    have first : target ∈ (Term.compound op target value type).parts := by simp [Term.parts]
    have second : value ∈ (Term.compound op target value type).parts := by simp [Term.parts]
    obtain ⟨kind, kindedTarget⟩ :=
      ihTarget (formed.parts _ first) (loaded.parts _ first) (simple.parts _ first)
    obtain ⟨kind', kindedValue⟩ :=
      ihValue (formed.parts _ second) (loaded.parts _ second) (simple.parts _ second)
    exact ⟨kind, kinded_compound regular formed.node simple.node (simple.parts _ first).node
      (loaded.node type rfl) (loaded.parts _ second).node kindedTarget kindedValue⟩
  | _ => cases simple.node

end DebugExpr.Bound
