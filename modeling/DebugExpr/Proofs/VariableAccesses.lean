import DebugExpr.Proofs.Evaluation
import DebugExpr.Proofs.Methods

/-! Accesses to variables. An instruction names a local or an argument by its form or by its
operand. The locals of the suspended method have the first slots: a block names these for itself,
and the later ones are its temporaries, which it names through the patterns that create them. -/
namespace DebugExpr.Code
open Metadata DebugExpr.Bound

/-- What an instruction does with a variable. -/
inductive Access where
  | load
  | store
  | address
  deriving DecidableEq

namespace Opcode

/-- What an instruction does with a variable, if it accesses one, and the variable of an index. -/
def access? : Opcode → Option (Access × (Nat → Variable))
  | ldloc0 | ldloc1 | ldloc2 | ldloc3 | ldlocS | ldloc => some (.load, .local)
  | stloc0 | stloc1 | stloc2 | stloc3 | stlocS | stloc => some (.store, .local)
  | ldlocaS | ldloca => some (.address, .local)
  | ldarg0 | ldarg1 | ldarg2 | ldarg3 | ldargS | ldarg => some (.load, .argument)
  | stargS | starg => some (.store, .argument)
  | ldargaS | ldarga => some (.address, .argument)
  | _ => none

/-- The index of a variable in an instruction, by its form or by its operand. -/
def index? (op : Opcode) (operand : Operand) : Option Nat :=
  match op, operand with
  | ldloc0, _ | stloc0, _ | ldarg0, _ => some 0
  | ldloc1, _ | stloc1, _ | ldarg1, _ => some 1
  | ldloc2, _ | stloc2, _ | ldarg2, _ => some 2
  | ldloc3, _ | stloc3, _ | ldarg3, _ => some 3
  | _, .localSlot index | _, .argumentSlot index => some index
  | _, _ => none

/-- An operand that is encoded as the instruction asks has the index of its variable. -/
theorem index?_isSome {op : Opcode} {operand : Operand} (fits : operand.fits op.operand = true)
    (accesses : op.access?.isSome) : (op.index? operand).isSome := by
  revert fits accesses
  cases op
  all_goals first
    | exact fun _ _ => rfl
    | exact fun _ (none : false = true) => nomatch none
    | cases operand <;> first
      | exact fun _ _ => rfl
      | exact fun (misfit : false = true) => nomatch misfit

end Opcode

/-- What an instruction does with a variable, and with which one. -/
def access? (op : Opcode) (operand : Operand) : Option (Access × Variable) :=
  match op.access?, op.index? operand with
  | some (access, place), some index => some (access, place index)
  | _, _ => none

def Instruction.access? (i : Instruction) : Option (Access × Variable) :=
  Code.access? i.opcode i.operand

namespace Form

def access? (f : Form) : Option (Access × Variable) :=
  Code.access? f.opcode f.operand

theorem slot_access {forms : List Opcode} {byteForm wordForm : Opcode} {operand : Operand}
    {index : Nat} {access : Access} {place : Nat → Variable}
    (implicit : ∀ form ∈ forms.zipIdx, Code.access? form.1 .none = some (access, place form.2))
    (byte : Code.access? byteForm operand = some (access, place index))
    (word : Code.access? wordForm operand = some (access, place index)) :
    (slot forms byteForm wordForm operand index).access? = some (access, place index) := by
  unfold slot
  split
  · rename_i op found
    exact implicit (op, index) (List.mem_zipIdx_iff_getElem?.mpr found)
  · split
    · exact byte
    · exact word

theorem loadLocal_access (index : Nat) : (loadLocal index).access? = some (.load, .local index) :=
  slot_access (by decide) rfl rfl

theorem storeLocal_access (index : Nat) :
    (storeLocal index).access? = some (.store, .local index) :=
  slot_access (by decide) rfl rfl

theorem loadLocalAddress_access (index : Nat) :
    (loadLocalAddress index).access? = some (.address, .local index) :=
  slot_access (by decide) rfl rfl

theorem loadArgument_access (index : Nat) :
    (loadArgument index).access? = some (.load, .argument index) :=
  slot_access (by decide) rfl rfl

theorem storeArgument_access (index : Nat) :
    (storeArgument index).access? = some (.store, .argument index) :=
  slot_access (by decide) rfl rfl

theorem loadArgumentAddress_access (index : Nat) :
    (loadArgumentAddress index).access? = some (.address, .argument index) :=
  slot_access (by decide) rfl rfl

theorem int32_access (value : Int32) : (int32 value).access? = none := by
  have none_ite {test : Prop} [Decidable test] {yes no : Form} (hyes : yes.access? = none)
      (hno : no.access? = none) : (if test then yes else no).access? = none := by
    split
    · exact hyes
    · exact hno
  unfold int32
  repeat' apply none_ite
  all_goals rfl

end Form

/-- The access of the instruction of an item. -/
def Item.access? : Item → Option (Access × Variable)
  | .plain op operand => Code.access? op operand
  | .branch .. => none

theorem Form.item_access (f : Form) : f.item.access? = f.access? :=
  rfl

/-- The operand of the item is encoded as its instruction asks. -/
def Item.Fits : Item → Prop
  | .plain op operand => operand.fits op.operand = true
  | .branch .. => True

theorem access?_of_callable {op : Opcode} (callable : Encode.Callable op) (operand : Operand) :
    access? op operand = none := by
  have none : op.access?.isNone := by
    revert callable
    cases op <;> decide
  rw [Option.isNone_iff_eq_none] at none
  simp [access?, none]

/-- The variable is an argument or one of the first locals. -/
def isNamed (locals : Nat) : Variable → Bool
  | .local index => index < locals
  | .argument _ => true

namespace Block

/-- The accesses of a block in the order of its code, but for those to its temporaries. -/
def accesses : Block → List (Access × Variable)
  | skip | fault _ | call .. | spill _ => []
  | plain op operand => (access? op operand).toList
  | seq first second | orElse first second => first.accesses ++ second.accesses
  | keeping _ body => body.accesses

/-- Every variable of the block is an argument or one of the first locals. -/
def Names (locals : Nat) (b : Block) : Prop :=
  ∀ x ∈ b.accesses, isNamed locals x.2 = true

variable {b : Block}

theorem items_fit (lawful : b.Lawful) (label slot : Nat) :
    ∀ item ∈ b.items label slot, item.Fits := by
  induction b generalizing label slot with
  | skip | fault => simp [items]
  | plain op operand =>
    rintro item (_ | ⟨_, ⟨⟩⟩)
    exact lawful.2.2
  | call op callee =>
    rintro item (_ | ⟨_, ⟨⟩⟩)
    have token : op.operand = .token := lawful.1.2
    simp only [Item.Fits, token]
    rfl
  | seq first second ihFirst ihSecond =>
    exact List.forall_mem_append.mpr ⟨ihFirst lawful.1 _ _, ihSecond lawful.2 _ _⟩
  | orElse left right ihLeft ihRight =>
    refine List.forall_mem_append.mpr ⟨List.forall_mem_append.mpr
      ⟨ihLeft lawful.1 _ _, ?_⟩, ihRight lawful.2.1 _ _⟩
    simp [Item.Fits, dup_has.1.2.2, pop_has.1.2.2]
  | spill type =>
    simpa [items, Form.item, Item.Fits] using
      And.intro (Form.storeLocal_has slot).1.2.2 (Form.loadLocalAddress_has slot).1.2.2
  | keeping type body ih =>
    refine List.forall_mem_append.mpr ⟨List.forall_mem_append.mpr ⟨?_, ih lawful _ _⟩, ?_⟩
    · simpa [Form.item, Item.Fits, dup_has.1.2.2] using (Form.storeLocal_has slot).1.2.2
    · simpa [Form.item, Item.Fits] using (Form.loadLocal_has slot).1.2.2

/-- The instructions of a block access its variables in order. What else they access are
temporaries. -/
theorem items_accesses {locals : Nat} (lawful : b.Lawful) (names : b.Names locals) (label : Nat)
    {slot : Nat} (behind : locals ≤ slot) :
    ((b.items label slot).filterMap Item.access?).filter (isNamed locals ·.2) = b.accesses := by
  have unnamed {index : Nat} (behind : locals ≤ index) :
      isNamed locals (.local index) = false := by
    simpa [isNamed] using behind
  induction b generalizing label slot with
  | skip | fault => rfl
  | plain op operand =>
    cases found : access? op operand with
    | none => simp [items, Item.access?, found, accesses]
    | some x =>
      have named := names x (by simp [accesses, found])
      simp [items, Item.access?, found, accesses, named]
  | call op callee => simp [items, Item.access?, access?_of_callable lawful.1, accesses]
  | seq first second ihFirst ihSecond =>
    obtain ⟨namesFirst, namesSecond⟩ : first.Names locals ∧ second.Names locals :=
      List.forall_mem_append.mp names
    simp only [items, accesses, List.filterMap_append, List.filter_append]
    rw [ihFirst lawful.1 namesFirst _ behind,
      ihSecond lawful.2 namesSecond _ (Nat.le_add_right_of_le behind)]
  | orElse left right ihLeft ihRight =>
    obtain ⟨namesLeft, namesRight⟩ : left.Names locals ∧ right.Names locals :=
      List.forall_mem_append.mp names
    have test : [Item.plain .dup .none, .branch .ifTrue false ⟨label⟩, .plain .pop .none].filterMap
        Item.access? = [] := rfl
    simp only [items, accesses, List.filterMap_append, List.filter_append, test, List.append_nil]
    rw [ihLeft lawful.1 namesLeft _ behind,
      ihRight lawful.2.1 namesRight _ (Nat.le_add_right_of_le behind)]
  | spill type =>
    simp [items, accesses, Form.item_access, Form.storeLocal_access, Form.loadLocalAddress_access,
      unnamed behind]
  | keeping type body ih =>
    have dup : (Item.plain .dup .none).access? = none := rfl
    simp [items, accesses, dup, Form.item_access, Form.storeLocal_access, Form.loadLocal_access,
      unnamed behind, ih lawful names _ (Nat.le_succ_of_le behind)]

end Block

theorem Item.Shows.access?_eq {item : Item} {i : Instruction} {offset : Nat → Nat}
    {marks : List Nat} (shows : item.Shows offset marks i) : i.access? = item.access? := by
  cases item with
  | plain op operand =>
    obtain ⟨opcode, shown⟩ := shows
    rw [Instruction.access?, opcode, shown]
    rfl
  | branch condition wide label =>
    obtain ⟨opcode | opcode, shown⟩ := shows <;> rw [Instruction.access?, opcode, shown] <;>
      cases condition <;> rfl

end DebugExpr.Code
