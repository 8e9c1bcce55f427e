import DebugExpr.Proofs.Places
import DebugExpr.Proofs.SlotArithmetic
import DebugExpr.Proofs.StorageMachine

/-! Values of compound assignments to small integers. Arithmetic is that of 32 bits, and what is
stored are the lowest bits of the result. A target that is reached through its address keeps the
result in a temporary of its own type, so that the value of the assignment is what is read from the
target afterwards. A local or an argument is stored into directly, and the value is the result as it
was: it is what is read just when the result lies in the range of the type. -/
namespace DebugExpr.Code
open Metadata Source DebugExpr.Bound

variable {p q : Primitive} {b : BitVec 32}

section Widths

theorem setWidth_resize (small : bits p ≤ 32) (b : BitVec 32) :
    (resize p b).setWidth (bits p) = b.setWidth (bits p) := by
  rw [← b.ofInt_toInt, resize_ofInt small small, setWidth_ofInt small, setWidth_ofInt small,
    ofInt_wrap]

/-- Only the lowest bits count. -/
theorem resize_resize (small : bits p ≤ 32) (same : bits q = bits p) (b : BitVec 32) :
    resize p (resize q b) = resize p b := by
  have low : (resize q b).setWidth (bits p) = b.setWidth (bits p) := by
    rw [← same]
    exact setWidth_resize (same ▸ small) b
  simp only [resize.eq_def p, low]

theorem bits_of_isPromoted (small : Scope.isPromoted p = true) : bits p < 32 := by
  cases p <;> first | decide | cases small

theorem isInteger_of_isPromoted (small : Scope.isPromoted p = true) : isInteger p = true := by
  cases p <;> first | decide | cases small

theorem inRange_int32 {n : Int} (small : Scope.isPromoted p = true) (range : inRange p n = true) :
    inRange .int32 n = true := by
  cases p <;> cases small
  all_goals
    simp only [inRange, valueRange?, Option.any_some, Bool.and_eq_true, decide_eq_true_eq]
      at range ⊢
    omega

theorem toInt_resize (small : Scope.isPromoted p = true) (b : BitVec 32) :
    (resize p b).toInt = wrap p b.toInt := by
  have narrow := Nat.le_of_lt (bits_of_isPromoted small)
  have range := inRange_int32 small (inRange_wrap (isInteger_of_isPromoted small) b.toInt)
  have cut := resize_ofInt narrow narrow (n := b.toInt)
  rw [BitVec.ofInt_toInt] at cut
  rw [cut]
  exact toInt_ofInt (p := .int32) rfl range

/-- Cutting changes just the integers out of range. -/
theorem resize_eq_iff (small : Scope.isPromoted p = true) :
    resize p b = b ↔ inRange p b.toInt = true := by
  rw [← BitVec.toInt_inj, toInt_resize small]
  constructor
  · intro stays
    exact stays ▸ inRange_wrap (isInteger_of_isPromoted small) b.toInt
  · exact wrap_of_inRange

theorem kept_small (small : Scope.isPromoted p = true) (b : BitVec 32) :
    (Word.slot (.int32 b)).kept p = .slot (.int32 (resize p b)) := by
  have narrow := bits_of_isPromoted small
  have notBoolean : p ≠ .boolean := by
    rintro rfl
    cases small
  simp [Word.kept, notBoolean, narrow]

end Widths

/-- What an operator makes of two integers of 32 bits. -/
def calculate (op : BinaryOp) (isUnsigned : Bool) (left right : BitVec 32) :
    Except Trap (BitVec 32) :=
  match op with
  | .add => .ok (left + right)
  | .subtract => .ok (left - right)
  | .multiply => .ok (left * right)
  | .divide => if isUnsigned then divideUnsigned 32 left right else divideSigned 32 left right

section Instructions
variable (m : Machine) (slot : Nat) {type : ClosedType}

theorem arithmetic_perform (op : BinaryOp) (isUnsigned : Bool) (left right : BitVec 32)
    (stack : List Word) (storage : Location → Word) :
    (Block.op (arithmetic op isUnsigned)).perform m slot
        ⟨.slot (.int32 right) :: .slot (.int32 left) :: stack, storage⟩ =
      (calculate op isUnsigned left right).map fun result =>
        ⟨.slot (.int32 result) :: stack, storage⟩ := by
  cases op with
  | add | subtract | multiply => rfl
  | divide => cases isUnsigned <;> rfl

theorem dup_perform (w : Word) (stack : List Word) (storage : Location → Word) :
    (Block.op .dup).perform m slot ⟨w :: stack, storage⟩ = .ok ⟨w :: w :: stack, storage⟩ :=
  rfl

/-- The signed type that has as many bits. -/
def signedAs (p : Primitive) : Primitive :=
  if bits p = 8 then .int8 else .int16

theorem signedAs_small (small : Scope.isPromoted p = true) :
    Scope.isPromoted (signedAs p) = true ∧ bits (signedAs p) = bits p := by
  cases p <;> cases small <;> decide

/-- What is stored as one small integer is read as another one of the same size. -/
theorem read_write (small : Scope.isPromoted p = true) (smallStored : Scope.isPromoted q = true)
    (same : bits q = bits p) (a : Activation) (l : Location) (b : BitVec 32) :
    (a.write q l (.slot (.int32 b))).read p l = .slot (.int32 (resize p b)) := by
  have narrow := Nat.le_of_lt (bits_of_isPromoted small)
  simp only [Activation.read, Activation.write, Function.update_self, kept_small smallStored,
    kept_small small, resize_resize narrow same]

theorem pushIndirect_perform (marked : type.primitive? = some p) (small : Scope.isPromoted p = true)
    (l : Location) (stack : List Word) (storage : Location → Word) :
    (pushIndirect type).perform m slot ⟨.address l :: stack, storage⟩ =
      .ok ⟨(storage l).kept p :: stack, storage⟩ := by
  simp only [pushIndirect, marked]
  cases p <;> cases small <;> rfl

theorem popIndirect_perform (marked : type.primitive? = some p) (small : Scope.isPromoted p = true)
    (a : Activation) (l : Location) (w : Word) :
    (popIndirect type).perform m slot ((a.push (.address l)).push w) =
      .ok (a.write (signedAs p) l w) := by
  simp only [popIndirect, marked]
  cases p <;> cases small <;> rfl

/-- A word that is stored in two places as small integers of one size is read from the first one,
even if the places are the same. -/
theorem read_either (small : Scope.isPromoted p = true) (a : Activation) (l l' : Location)
    (b : BitVec 32) :
    ((a.write p l (.slot (.int32 b))).write (signedAs p) l' (.slot (.int32 b))).read p l =
      .slot (.int32 (resize p b)) := by
  obtain ⟨smallStored, same⟩ := signedAs_small small
  by_cases shared : l' = l
  · subst shared
    exact read_write small smallStored same _ l' b
  · have first := read_write small small rfl a l b
    rw [← first]
    simp [Activation.read, Activation.write, Function.update_of_ne (Ne.symm shared)]

end Instructions

/-- The built-in types of the variables of a frame that hold a value of one: neither `this` nor an
argument that is passed by reference does. -/
def frameTypes (f : Frame) : Memory (Option Primitive) where
  locals := f.locals.map (·.type.primitive?)
  arguments := (if f.isStatic then [] else [none]) ++
    f.parameters.map fun slot => if slot.byRef then none else slot.type.primitive?

/-- The machine runs a method in the frame: it has the variables of the frame, and the temporaries
of the block from the slot on. -/
structure Machine.Hosts (m : Machine) (f : Frame) (b : Block) (slot : Nat) : Prop where
  named : ∀ {x : Variable} {p? : Option Primitive},
    (frameTypes f).get? x = some p? → m.types.get? x = some p?
  temporaries : ∀ {i : Nat} {type : ClosedType},
    b.temporaries[i]? = some type → m.types.get? (.local (slot + i)) = some type.primitive?

/-- The code that leads to the target of a compound assignment: there is none to a variable. -/
def approach (target : Term) : Block :=
  if (lower target).storesDirectly then .skip else (lower target).address

/-- From the first activation the code that leads to the target comes to the second one, where the
target denotes the location. -/
inductive Approaches (m : Machine) (slot : Nat) (target : Term) (a : Activation) :
    Activation → Location → Prop
  | toVariable {x : Variable} (isVariable : target.asVariable? = some x) :
    Approaches m slot target a a (.variable x)
  | toAddress {l : Location} {storage : Location → Word} (other : target.asVariable? = none)
    (performs : (lower target).address.perform m slot a = .ok ⟨.address l :: a.stack, storage⟩) :
    Approaches m slot target a ⟨.address l :: a.stack, storage⟩ l

theorem storesDirectly_eq (t : Term) : (lower t).storesDirectly = t.asVariable?.isSome := by
  cases t with
  | parameter index byRef type => cases byRef <;> rfl
  | pseudo o =>
    simp only [lower]
    split <;> rfl
  | field receiver f => cases receiver <;> rfl
  | property receiver p => cases receiver <;> rfl
  | call receiver m args => cases receiver <;> rfl
  | _ => rfl

section Compound
variable {m : Machine} {s : Scope} {op : BinaryOp} {target value : Term} {type : ClosedType}
  {slot : Nat} {a reached : Activation} {l : Location} {content right : BitVec 32}
  {storage after : Location → Word}

theorem lower_compound (typed : target.type? = some type) :
    (lower (.compound op target value type)).value =
      compoundTo op type (lower target) (lower value).value true := by
  simp [lower, Lowering.readOnly, withType, typed]

/-- A variable of the frame holds values of its type. -/
theorem named_known (formed : target.Formed s) (typed : target.type? = some type)
    (marked : type.primitive? = some p) {x : Variable} (isVariable : target.asVariable? = some x) :
    (frameTypes s.frame).get? x = some (some p) := by
  obtain ⟨index, type, rfl, rfl⟩ | ⟨index, type, rfl, rfl⟩ := Term.asVariable?_eq_some isVariable
  · obtain ⟨slot, found, rfl⟩ := formed
    cases typed
    simp [frameTypes, Memory.get?, found, marked]
  · obtain ⟨i, slot, rfl, found, rfl, byValue⟩ := formed
    cases typed
    cases static : s.frame.isStatic <;>
      simp [frameTypes, Memory.get?, found, marked, static, byValue]

section Variables
variable {x : Variable} (isVariable : target.asVariable? = some x)
include isVariable

theorem variable_load (known : m.types.get? x = some (some p)) (slot : Nat) (a : Activation) :
    (lower target).value.perform m slot a = .ok (a.push (a.read p (.variable x))) := by
  obtain ⟨index, type, rfl, rfl⟩ | ⟨index, type, rfl, rfl⟩ := Term.asVariable?_eq_some isVariable
  · exact Machine.executeForm_load (Form.loadLocal_access index) known a
  · exact Machine.executeForm_load (Form.loadArgument_access index) known a

theorem variable_store (known : m.types.get? x = some (some p)) (slot : Nat) (a : Activation)
    (w : Word) :
    (lower target).store.perform m slot (a.push w) = .ok (a.write p (.variable x) w) := by
  obtain ⟨index, type, rfl, rfl⟩ | ⟨index, type, rfl, rfl⟩ := Term.asVariable?_eq_some isVariable
  · exact Machine.executeForm_store (Form.storeLocal_access index) known a w
  · exact Machine.executeForm_store (Form.storeArgument_access index) known a w

theorem variable_direct :
    (lower target).storesDirectly = true ∧ (lower target).value.temporaries = [] := by
  obtain ⟨_, _, rfl, -⟩ | ⟨_, _, rfl, -⟩ := Term.asVariable?_eq_some isVariable
  · exact ⟨rfl, rfl⟩
  · exact ⟨rfl, rfl⟩

/-- A variable is assigned the result, and a copy of the result stays. -/
theorem compound_variable (known : m.types.get? x = some (some p))
    (typed : target.type? = some type) (marked : type.primitive? = some p)
    (small : Scope.isPromoted p = true)
    (holds : a.storage (.variable x) = .slot (.int32 content))
    (operand : (lower value).value.perform m slot (a.push (.slot (.int32 (resize p content)))) =
      .ok ⟨.slot (.int32 right) :: .slot (.int32 (resize p content)) :: a.stack, after⟩) :
    (lower (.compound op target value type)).value.perform m slot a =
      (calculate op p.isUnsigned (resize p content) right).map fun result =>
        (Activation.mk (.slot (.int32 result) :: a.stack) after).write p (.variable x)
          (.slot (.int32 result)) := by
  have unsigned : isUnsignedType type = p.isUnsigned := by simp [isUnsignedType, marked]
  have loads : (lower target).value.perform m slot a =
      .ok (a.push (.slot (.int32 (resize p content)))) := by
    rw [variable_load isVariable known, Activation.read, holds, kept_small small]
  obtain ⟨direct, none⟩ := variable_direct isVariable
  rw [lower_compound typed]
  simp only [compoundTo, direct, if_true, perform_append, unsigned, loads, ok_bind,
    none, List.length_nil, Nat.add_zero, operand, arithmetic_perform]
  cases calculate op p.isUnsigned (resize p content) right with
  | error trap => rfl
  | ok result =>
    exact variable_store isVariable known _ ⟨.slot (.int32 result) :: a.stack, after⟩ _

end Variables

/-- A copy of the result is kept in a temporary while the result is stored through an address. -/
theorem keep_perform (marked : type.primitive? = some p) (small : Scope.isPromoted p = true)
    {temporary : Nat} (known : m.types.get? (.local temporary) = some (some p)) (a : Activation)
    (l : Location) (result : BitVec 32) :
    (Block.keeping type (popIndirect type)).perform m temporary
        ((a.push (.address l)).push (.slot (.int32 result))) =
      .ok (((a.write p (.variable (.local temporary)) (.slot (.int32 result))).write (signedAs p) l
        (.slot (.int32 result))).push (.slot (.int32 (resize p result)))) := by
  have copies := Machine.executeForm_store (Form.storeLocal_access temporary) known
    ((a.push (.address l)).push (.slot (.int32 result))) (.slot (.int32 result))
  have stores := popIndirect_perform m (temporary + 1) marked small
    (a.write p (.variable (.local temporary)) (.slot (.int32 result))) l (.slot (.int32 result))
  have loads := Machine.executeForm_load (Form.loadLocal_access temporary) known
    ((a.write p (.variable (.local temporary)) (.slot (.int32 result))).write (signedAs p) l
      (.slot (.int32 result)))
  rw [Activation.push_write, Activation.push_write] at copies
  rw [read_either small] at loads
  calc (Block.keeping type (popIndirect type)).perform m temporary
          ((a.push (.address l)).push (.slot (.int32 result)))
      = (do
          let a ← m.executeForm (.storeLocal temporary)
            (((a.push (.address l)).push (.slot (.int32 result))).push (.slot (.int32 result)))
          let a ← (popIndirect type).perform m (temporary + 1) a
          m.executeForm (.loadLocal temporary) a) := rfl
    _ = _ := by rw [copies, ok_bind, stores, ok_bind, loads]

theorem compound_temporaries (other : target.asVariable? = none)
    (typed : target.type? = some type) :
    (lower (.compound op target value type)).value.temporaries =
      (lower target).address.temporaries ++ (lower value).value.temporaries ++ [type] := by
  have indirect : (lower target).storesDirectly = false := by rw [storesDirectly_eq, other]; rfl
  rw [lower_compound typed]
  simp [compoundTo, keepIf, indirect, temporaries_append, (pushIndirect_bare type).temporaries,
    (popIndirect_bare type).temporaries, Block.op, Block.temporaries]

/-- The target is assigned the result through its address, and the copy that stays went through a
temporary of the type of the target. -/
theorem compound_address (other : target.asVariable? = none)
    (performs : (lower target).address.perform m slot a = .ok ⟨.address l :: a.stack, storage⟩)
    (known : m.types.get? (.local (slot + (lower target).address.temporaries.length +
      (lower value).value.temporaries.length)) = some (some p))
    (typed : target.type? = some type) (marked : type.primitive? = some p)
    (small : Scope.isPromoted p = true) (holds : storage l = .slot (.int32 content))
    (operand : (lower value).value.perform m (slot + (lower target).address.temporaries.length)
      ⟨.slot (.int32 (resize p content)) :: .address l :: a.stack, storage⟩ =
      .ok ⟨.slot (.int32 right) :: .slot (.int32 (resize p content)) :: .address l :: a.stack,
        after⟩) :
    (lower (.compound op target value type)).value.perform m slot a =
      (calculate op p.isUnsigned (resize p content) right).map fun result =>
        ((Activation.mk (.slot (.int32 (resize p result)) :: a.stack) after).write p
          (.variable (.local (slot + (lower target).address.temporaries.length +
            (lower value).value.temporaries.length))) (.slot (.int32 result))).write (signedAs p) l
              (.slot (.int32 result)) := by
  have unsigned : isUnsignedType type = p.isUnsigned := by simp [isUnsignedType, marked]
  have indirect : (lower target).storesDirectly = false := by rw [storesDirectly_eq, other]; rfl
  have idle (opcode : Opcode) : (Block.op opcode).temporaries = [] := rfl
  rw [lower_compound typed]
  simp only [compoundTo, indirect, Bool.false_eq_true, if_false, perform_append,
    temporaries_append, (pushIndirect_bare type).temporaries, idle, List.append_nil,
    List.length_append, unsigned, performs, ok_bind, dup_perform,
    pushIndirect_perform _ _ marked small, holds, kept_small small, operand, arithmetic_perform]
  rw [← Nat.add_assoc]
  cases calculate op p.isUnsigned (resize p content) right with
  | error trap => rfl
  | ok result => exact keep_perform marked small known ⟨a.stack, after⟩ l result

end Compound

/-- The value of a compound assignment to a small integer, for any term that may be assigned to,
whatever the target holds and the operand computes: where the arithmetic has a result, what is read
from the target afterwards is the result reduced into the range of the type. The value of the
assignment is the same, unless the target is a local or an argument and the result is out of range.
-/
theorem compound_value_iff {s : Scope} {expr : Expr} {t : Term} (bound : s.bind expr = .ok t)
    {op : BinaryOp} {target value : Term} {type : ClosedType} {p : Primitive}
    (inside : .compound op target value type ∈ t.subterms) (marked : type.primitive? = some p)
    (small : Scope.isPromoted p = true) {m : Machine} {slot : Nat}
    (hosts : m.Hosts s.frame (lower (.compound op target value type)).value slot)
    {a reached : Activation} {l : Location} (approaches : Approaches m slot target a reached l)
    {content right : BitVec 32} (holds : reached.storage l = .slot (.int32 content))
    {after : Location → Word}
    (operand : (lower value).value.perform m (slot + (approach target).temporaries.length)
      (reached.push (.slot (.int32 (resize p content)))) =
        .ok ⟨.slot (.int32 right) :: .slot (.int32 (resize p content)) :: reached.stack, after⟩) :
    (∀ trap, calculate op p.isUnsigned (resize p content) right = .error trap →
      (lower (.compound op target value type)).value.perform m slot a = .error trap) ∧
    ∀ result, calculate op p.isUnsigned (resize p content) right = .ok result →
      ∃ left final, (lower (.compound op target value type)).value.perform m slot a = .ok final ∧
        final.stack = .slot (.int32 left) :: a.stack ∧
        final.read p l = .slot (.int32 (resize p result)) ∧
        inRange p (resize p result).toInt = true ∧
        (left = resize p result ↔ target.asVariable? = none ∨ inRange p result.toInt = true) := by
  have formed := (Scope.bind_wellFormed bound).subterm inside
  have formedTarget := (formed.parts target (by simp [Term.parts])).node
  obtain ⟨assignable, typed, -⟩ := formed.node
  have range (result : BitVec 32) : inRange p (resize p result).toInt = true := by
    rw [toInt_resize small]
    exact inRange_wrap (isInteger_of_isPromoted small) _
  cases approaches with
  | @toVariable x isVariable =>
    obtain ⟨direct, none⟩ := variable_direct isVariable
    have known := hosts.named (named_known formedTarget typed marked isVariable)
    have idle : (approach target).temporaries = [] := by rw [approach, if_pos direct]; rfl
    rw [idle, List.length_nil, Nat.add_zero] at operand
    rw [compound_variable isVariable known typed marked small holds operand]
    refine ⟨fun trap traps => by rw [traps]; rfl, fun result computes => ?_⟩
    refine ⟨result, _, by rw [computes]; rfl, rfl, read_write small small rfl _ _ _, range result,
      ?_⟩
    rw [eq_comm, resize_eq_iff small]
    simp [isVariable]
  | @toAddress l storage other performs =>
    have indirect : (lower target).storesDirectly = false := by rw [storesDirectly_eq, other]; rfl
    have through : (approach target) = (lower target).address := by
      rw [approach, if_neg (by simp [indirect])]
    have known : m.types.get? (.local (slot + (lower target).address.temporaries.length +
        (lower value).value.temporaries.length)) = some (some p) := by
      rw [← marked, Nat.add_assoc]
      refine hosts.temporaries ?_
      rw [compound_temporaries other typed]
      simp
    rw [through] at operand
    rw [compound_address other performs known typed marked small holds operand]
    refine ⟨fun trap traps => by rw [traps]; rfl, fun result computes => ?_⟩
    obtain ⟨smallStored, same⟩ := signedAs_small small
    exact ⟨resize p result, _, by rw [computes]; rfl, rfl, read_write small smallStored same _ _ _,
      range result, by simp [other]⟩

section Instances
open Sample

/-- The assignment `b += 100`. -/
def addHundred : Expr :=
  .assign 0 (.name 0 "b" []) (some .add) (.literal 0 (.integer 100))

/-- The term adds the constant 100 to a byte of a parameter that is passed by reference. -/
def addsToParameter : Term → Bool
  | .compound .add (.parameter 0 true _) (.constant (.int32 100) _) type =>
    type.primitive? == some .uint8
  | _ => false

/-- The argument is a reference to 200, and loading the argument pushes the reference. -/
def referring : Machine where
  types := ⟨[some .uint8], [none]⟩
  outside op _ a :=
    if op = .ldarg0 then .ok (a.push (a.storage (.variable (.argument 0))))
    else .error .undefined

def referred : Location → Word
  | .variable (.argument 0) => .address (.elsewhere 0)
  | _ => .slot (.int32 200)

/-- What a referred byte holds after the assignment is also its value: 300 less 256. -/
theorem byReference_value : ∃ t final,
    (scope [⟨"b", type .uint8, true⟩] []).bind addHundred = .ok t ∧
      (lower t).value.perform referring 0 ⟨[], referred⟩ = .ok final ∧
      final.stack = [.slot (.int32 44)] ∧
      final.read .uint8 (.elsewhere 0) = .slot (.int32 44) := by
  obtain ⟨t, bound, shape⟩ : ∃ t,
      (scope [⟨"b", type .uint8, true⟩] []).bind addHundred = .ok t ∧ addsToParameter t = true :=
    exists_ok_of_any (by decide +kernel)
  unfold addsToParameter at shape
  split at shape
  case h_2 => cases shape
  rename_i own constant byte
  have marked : byte.primitive? = some .uint8 := by simpa using shape
  obtain ⟨-, typed, -⟩ := (Scope.bind_wellFormed bound).node
  obtain rfl : own = byte := Option.some.inj typed
  let assignment := Term.compound .add (.parameter 0 true own) (.constant (.int32 100) constant) own
  have hosts : referring.Hosts (scope [⟨"b", type .uint8, true⟩] []).frame
      (lower assignment).value 0 := by
    constructor
    · rintro (index | index) p? found
      · cases found
      · rcases index with _ | index
        · cases found
          rfl
        · cases found
    · intro i temporary listed
      rw [compound_temporaries rfl rfl] at listed
      rcases i with _ | i
      · cases listed
        rw [marked]
        rfl
      · cases listed
  have approaches : Approaches referring 0 (.parameter 0 true own) ⟨[], referred⟩
      ⟨[.address (.elsewhere 0)], referred⟩ (.elsewhere 0) := .toAddress rfl rfl
  obtain ⟨left, final, performs, stack, read, -, same⟩ := (compound_value_iff bound
    (Term.self_mem_subterms _) marked rfl hosts approaches rfl rfl).2 _ rfl
  obtain rfl := same.mpr (.inl rfl)
  exact ⟨_, final, bound, performs, stack, read⟩

/-- A local byte that holds 200. -/
def plainStorage : Location → Word :=
  fun _ => .slot (.int32 200)

/-- The method of the assignment to a local byte comes to its return with 300 while the local holds
44. -/
theorem local_value_not_stored : ∃ t method final,
    (scope [] [⟨"b", type .uint8⟩]).bind addHundred = .ok t ∧
      expressionMethod [type .uint8] t = .ok method ∧
      (∃ i ∈ method.instructions, i.opcode = .ret ∧
        (Machine.bare ⟨[some .uint8], []⟩).Reaches method ⟨0, [], plainStorage⟩ ⟨i.offset, final⟩) ∧
      final.stack = [.slot (.int32 300)] ∧
      final.read .uint8 (.variable (.local 0)) = .slot (.int32 44) := by
  obtain ⟨t, bound, compiles, leaves⟩ : ∃ t,
      (scope [] [⟨"b", type .uint8⟩]).bind addHundred = .ok t ∧
        (expressionMethod [type .uint8] t).toOption.isSome = true ∧
        ((lower t).value.perform (.bare ⟨[some .uint8], []⟩) 1 ⟨[], plainStorage⟩).toOption.any
          (fun final => decide (final.stack = [.slot (.int32 300)] ∧
            final.read .uint8 (.variable (.local 0)) = .slot (.int32 44))) = true :=
    exists_ok_of_any (by decide +kernel)
  obtain ⟨method, compiles⟩ := ok_of_isSome compiles
  obtain ⟨final, performs, left, read⟩ := exists_ok_of_any leaves
  exact ⟨t, method, final, bound, compiles, MethodBody.reaches_ret compiles performs, left, read⟩

end Instances

end DebugExpr.Code
