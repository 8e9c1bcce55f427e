import DebugExpr.Proofs.InstructionBytes
import DebugExpr.Proofs.JoinDepths

/-! Bytes of finished methods. An accepted request appends the instruction that it is for, with an
operand of the kind that the instruction declares. The field then holds the operand, unless it is
for a variable: where a request names the instruction itself, the encoder accepts an argument for a
local, a local for an argument, and an index beyond the field. The short branches reach their
targets, and so do the long ones of a body of up to two gigabytes. So the bytes of a method are read
back just when its requests gave the variables as their instructions hold them. -/
namespace DebugExpr.Code
open Metadata Encode

namespace Encode
variable {op : Opcode} {operand : Operand} {e : Encoder}

/-- A request that is refused or else does something does it if it is accepted. -/
theorem met_of_accepted {p : Encode Unit} {met : Prop} (accepted : (result p e).1 = .ok ())
    (either : (∃ fault, result p e = (.error fault, e)) ∨ met) : met := by
  obtain ⟨fault, refused⟩ | met := either
  · rw [refused] at accepted
    cases accepted
  · exact met

theorem emit_accepted (accepted : (result (emit op operand) e).1 = .ok ()) :
    operand.fits op.operand = true ∧
      (result (emit op operand) e).2.items = e.items.push (.plain op operand) := by
  constructor
  · unfold emit at accepted
    cases effect : op.info.effect with
    | byCaller => simp [effect] at accepted
    | fixed pops pushes =>
      by_contra misfit
      rw [Bool.not_eq_true] at misfit
      by_cases flow : op.info.flow = .next <;> simp [effect, flow, misfit] at accepted
  · obtain ⟨-, answer, depth, maxDepth, writes, -⟩ :=
      met_of_accepted accepted (emit_writes op operand e)
    rw [writes]

theorem call_accepted {member : String} {pops pushes : Nat}
    (accepted : (result (call op member pops pushes) e).1 = .ok ()) :
    op.operand = .token ∧
      (result (call op member pops pushes) e).2.items =
        e.items.push (.plain op (.member member)) := by
  constructor
  · by_contra other
    simp [call, other] at accepted
  · obtain ⟨-, answer, depth, maxDepth, writes, -⟩ :=
      met_of_accepted accepted (call_writes op member pops pushes e)
    rw [writes]

end Encode

namespace Call

/-- The instruction that a request is for, unless it is a branch. -/
def form? : Call → Option Form
  | emit mnemonic operand => (Opcode.ofMnemonic? mnemonic).map (⟨·, operand⟩)
  | call mnemonic member _ _ => (Opcode.ofMnemonic? mnemonic).map (⟨·, .member member⟩)
  | ret _ => some ⟨.ret, .none⟩
  | branch .. | newLabel | placeLabel _ | newLocal _ => none
  | pushInt32 value => some (.int32 value)
  | pushInt64 value => some (.int64 value)
  | loadLocal index => some (.loadLocal index.toNat)
  | storeLocal index => some (.storeLocal index.toNat)
  | loadLocalAddress index => some (.loadLocalAddress index.toNat)
  | loadArgument index => some (.loadArgument index.toNat)
  | storeArgument index => some (.storeArgument index.toNat)
  | loadArgumentAddress index => some (.loadArgumentAddress index.toNat)

/-- What an accepted request adds to the instructions. -/
inductive Adds (c : Call) (e e' : Encoder) : Prop
  | form {f : Form} (isForm : c.form? = some f) (fits : f.operand.fits f.opcode.operand = true)
    (items : e'.items = e.items.push f.item)
  | branch {condition : Condition} {label : Label} (isBranch : c.form? = none)
    (items : e'.items = e.items.push (.branch condition false label))
  | nothing (noCode : c.form? = none) (items : e'.items = e.items)

variable {c : Call} {calls : List Call} {e : Encoder}

theorem adds_of_emit {f : Form}
    (performs : result c.perform e = result (Encode.emit f.opcode f.operand) e)
    (isForm : c.form? = some f) (accepted : (result c.perform e).1 = .ok ()) :
    Adds c e (c.next e) := by
  unfold next
  rw [performs] at accepted ⊢
  obtain ⟨fits, items⟩ := emit_accepted accepted
  exact .form isForm fits items

theorem adds (accepted : (result c.perform e).1 = .ok ()) : Adds c e (c.next e) := by
  cases c with
  | emit mnemonic operand =>
    obtain ⟨op, named, performs⟩ := met_of_accepted accepted
      (withOpcode_result (fun op => Encode.emit op operand) e)
    exact adds_of_emit (f := ⟨op, operand⟩) performs (by simp [form?, named]) accepted
  | call mnemonic member pops pushes =>
    obtain ⟨op, named, performs⟩ := met_of_accepted accepted
      (withOpcode_result (fun op => Encode.call op member pops.toNat pushes.toNat) e)
    have performs : result (Call.call mnemonic member pops pushes).perform e = _ := performs
    unfold next
    rw [performs] at accepted ⊢
    obtain ⟨token, items⟩ := call_accepted accepted
    exact .form (f := ⟨op, .member member⟩) (by simp [form?, named])
      (by simp [token, Operand.fits]) items
  | branch mnemonic label =>
    obtain ⟨op, named, performs⟩ := met_of_accepted accepted
      (withOpcode_result (fun op => Encode.branch op label) e)
    have performs : result (Call.branch mnemonic label).perform e = _ := performs
    unfold next
    rw [performs] at accepted ⊢
    obtain ⟨condition, -, -, answer, e', writes, items, -⟩ :=
      met_of_accepted accepted (branch_writes op label e)
    rw [writes]
    exact .branch rfl items
  | ret hasValue =>
    obtain ⟨answer, depth, maxDepth, unreachable, writes, -⟩ := ret_writes hasValue e
    unfold next perform
    rw [writes]
    exact .form (f := ⟨.ret, .none⟩) rfl rfl rfl
  | newLabel => exact .nothing rfl rfl
  | placeLabel label =>
    obtain ⟨-, answer, e', writes, items, -⟩ :=
      met_of_accepted accepted (placeLabel_writes label e)
    unfold next perform
    rw [writes]
    exact .nothing rfl items
  | newLocal type =>
    have writes := met_of_accepted accepted (newLocal_writes type e)
    unfold next perform
    rw [writes]
    exact .nothing rfl rfl
  | pushInt32 value | pushInt64 value | loadLocal index | storeLocal index
  | loadLocalAddress index | loadArgument index | storeArgument index
  | loadArgumentAddress index => exact adds_of_emit rfl rfl accepted

/-- Where a request names the instruction itself, the field holds a variable that it gives. -/
def SlotsFit : Call → Prop
  | emit mnemonic operand => ∀ op, Opcode.ofMnemonic? mnemonic = some op → op.HoldsSlot operand
  | _ => True

end Call

namespace Form

theorem slot_holdsSlot (place : Nat → Operand) {forms : List Opcode} {byteForm wordForm : Opcode}
    {index : Nat} (implicit : ∀ op ∈ forms, op.operand = .none)
    (byte : byteForm.operand = .variable8 ∧ byteForm.slot? = some place)
    (word : wordForm.operand = .variable16 ∧ wordForm.slot? = some place)
    (small : index < UInt16.size) {f : Form}
    (isForm : slot forms byteForm wordForm (place index) index = f) :
    f.opcode.HoldsSlot f.operand := by
  unfold slot at isForm
  split at isForm
  · next op found =>
    subst isForm
    simp [Opcode.HoldsSlot, implicit op (List.mem_of_getElem? found)]
  · split at isForm
    · next short =>
      subst isForm
      simpa [Opcode.HoldsSlot, byte.1] using
        ⟨place, byte.2, index, Nat.le_of_lt_succ short, rfl⟩
    · subst isForm
      simpa [Opcode.HoldsSlot, word.1] using
        ⟨place, word.2, index, Nat.le_of_lt_succ small, rfl⟩

theorem int32_holdsSlot (value : Int32) : (int32 value).opcode.HoldsSlot (int32 value).operand := by
  unfold int32
  repeat' (apply iteInduction (motive := fun f : Form => f.opcode.HoldsSlot f.operand) <;> intro)
  all_goals
    dsimp only
    exact Opcode.holdsSlot_of_other (by decide)

end Form

namespace Call
variable {c : Call} {calls : List Call} {e : Encoder} {f : Form}

theorem slotsFit_emit {mnemonic : String} {op : Opcode} {operand : Operand}
    (named : Opcode.ofMnemonic? mnemonic = some op) (holds : op.HoldsSlot operand) :
    (emit mnemonic operand).SlotsFit :=
  fun _ found => Option.some.inj (named.symm.trans found) ▸ holds

/-- The helpers of the encoder choose a form whose field holds the variable. -/
theorem form_holdsSlot (isForm : c.form? = some f) (fits : f.operand.fits f.opcode.operand = true)
    (slots : c.SlotsFit) : f.opcode.HoldsSlot f.operand := by
  cases c with
  | emit mnemonic operand =>
    obtain ⟨op, named, rfl⟩ := Option.map_eq_some_iff.mp isForm
    exact slots op named
  | call mnemonic member pops pushes =>
    obtain ⟨op, -, rfl⟩ := Option.map_eq_some_iff.mp isForm
    constructor <;> intro kind <;> simp [kind, Operand.fits] at fits
  | branch | newLabel | placeLabel | newLocal => cases isForm
  | ret | pushInt64 =>
    cases isForm
    apply Opcode.holdsSlot_of_other
    constructor <;> intro kind <;> cases kind
  | pushInt32 value =>
    cases isForm
    exact Form.int32_holdsSlot value
  | loadLocal index | storeLocal index | loadLocalAddress index =>
    exact Form.slot_holdsSlot .localSlot (by decide) ⟨rfl, rfl⟩ ⟨rfl, rfl⟩
      index.toNat_lt (Option.some.inj isForm)
  | loadArgument index | storeArgument index | loadArgumentAddress index =>
    exact Form.slot_holdsSlot .argumentSlot (by decide) ⟨rfl, rfl⟩ ⟨rfl, rfl⟩
      index.toNat_lt (Option.some.inj isForm)

end Call

section Sessions
variable {e : Encoder} {calls : List Call} {op : Opcode} {operand : Operand}

/-- The plain instructions behind a session are those that its requests are for. -/
theorem mem_serve (accepted : e.Accepts calls) :
    .plain op operand ∈ (e.serve calls).items.toList ↔
      .plain op operand ∈ e.items.toList ∨ ∃ c ∈ calls, c.form? = some ⟨op, operand⟩ := by
  induction calls generalizing e with
  | nil => simp
  | cons c rest ih =>
    have step : .plain op operand ∈ (c.next e).items.toList ↔
        .plain op operand ∈ e.items.toList ∨ c.form? = some ⟨op, operand⟩ := by
      cases Call.adds accepted.1 with
      | @form f isForm fits items =>
        rw [items, isForm]
        rcases f with ⟨op', operand'⟩
        simp [Form.item, eq_comm]
      | branch isBranch items => simp [items, isBranch]
      | nothing noCode items => simp [items, noCode]
    rw [Encoder.serve_cons, ih accepted.2, step]
    simp [or_assoc]

/-- Every instruction behind a session has an operand of its kind. -/
theorem fits_serve (accepted : e.Accepts calls) (fits : ∀ item ∈ e.items.toList, item.Fits) :
    ∀ item ∈ (e.serve calls).items.toList, item.Fits := by
  induction calls generalizing e with
  | nil => exact fits
  | cons c rest ih =>
    refine ih accepted.2 ?_
    cases Call.adds accepted.1 with
    | form isForm fits' items =>
      rw [items, Array.toList_push, List.forall_mem_append]
      exact ⟨fits, by simpa [Form.item, Item.Fits] using fits'⟩
    | branch isBranch items =>
      rw [items, Array.toList_push, List.forall_mem_append]
      exact ⟨fits, by simp [Item.Fits]⟩
    | nothing noCode items => rwa [items]

/-- The variables that the instructions name are held just when those that a request gives with the
instruction are. -/
theorem holdsSlot_serve {locals : List ClosedType}
    (accepted : (Encoder.ofLocals locals).Accepts calls) :
    (∀ op operand, .plain op operand ∈ ((Encoder.ofLocals locals).serve calls).items.toList →
      op.HoldsSlot operand) ↔ ∀ c ∈ calls, c.SlotsFit := by
  have fits := fits_serve accepted (by simp [Encoder.ofLocals])
  constructor
  · intro slots c member
    cases c with
    | emit mnemonic operand =>
      intro op named
      exact slots op operand ((mem_serve accepted).mpr
        (.inr ⟨_, member, by simp [Call.form?, named]⟩))
    | _ => trivial
  · intro slots op operand requested
    obtain start | ⟨c, member, isForm⟩ := (mem_serve accepted).mp requested
    · simp [Encoder.ofLocals] at start
    · exact Call.form_holdsSlot isForm (fits _ requested) (slots c member)

end Sessions

/-- The long branches of the method have displacements of four signed bytes. -/
def MethodBody.BranchesReach (m : MethodBody) : Prop :=
  ∀ i ∈ m.instructions, i.opcode.operand = .branch32 → ∀ target : Nat, i.operand = .target target →
    -2 ^ 31 ≤ (target : Int) - (i.offset + i.opcode.size : Nat) ∧
      (target : Int) - (i.offset + i.opcode.size : Nat) < 2 ^ 31

section Layout
variable {targets : Targets} {items : List Item} {i : Instruction} {op : Opcode}
  {operand : Operand} {size : Nat}

/-- An instruction of a layout of the items that has so many bytes. -/
inductive Laid (items : List Item) (size : Nat) (i : Instruction) : Prop
  | plain (member : .plain i.opcode i.operand ∈ items)
  | short {target : Nat} (kind : i.opcode.operand = .branch8) (operand : i.operand = .target target)
    (low : -128 ≤ (target : Int) - (i.offset + i.opcode.size : Nat))
    (high : (target : Int) - (i.offset + i.opcode.size : Nat) ≤ 127)
  | long {target : Nat} (kind : i.opcode.operand = .branch32) (operand : i.operand = .target target)
    (before : i.offset + i.opcode.size ≤ size) (inside : target ≤ size)

theorem Condition.operand_short (condition : Condition) : condition.short.operand = .branch8 := by
  cases condition <;> rfl

theorem Condition.operand_long (condition : Condition) : condition.long.operand = .branch32 := by
  cases condition <;> rfl

/-- A settled item was an item of the same kind, whatever form its branch has got. -/
theorem getElem?_of_settle {k : Nat} {settled : Item}
    (place : (settle targets items)[k]? = some settled) :
    ∃ item, items[k]? = some item ∧ item.narrow = settled.narrow := by
  have same := congrArg (·[k]?) (narrow_settle targets items)
  simpa [place] using same.symm

theorem exists_placed (member : .plain op operand ∈ items) :
    ∃ i ∈ placeAll targets (settle targets items), i.opcode = op ∧ i.operand = operand := by
  obtain ⟨k, found⟩ := List.mem_iff_getElem?.mp member
  obtain ⟨settled, place, same⟩ := settle_getElem? targets found
  have laid := placeAll_getElem? targets (settle targets items) k
  rw [place, Option.map_some] at laid
  refine ⟨_, List.mem_of_getElem? laid, ?_⟩
  rcases settled with ⟨op', operand'⟩ | _ <;> cases same
  exact ⟨rfl, rfl⟩

theorem laid_of_mem (bounded : Bounded targets items)
    (member : i ∈ placeAll targets (settle targets items)) :
    Laid items (offsetOf (settle targets items) (settle targets items).length) i := by
  obtain ⟨k, found⟩ := List.mem_iff_getElem?.mp member
  rw [placeAll_getElem?, Option.map_eq_some_iff] at found
  obtain ⟨settled, place, rfl⟩ := found
  obtain ⟨item, found, same⟩ := getElem?_of_settle place
  have count := settle_length targets items
  have inside := (List.getElem?_eq_some_iff.mp place).1
  have next := offsetOf_succ place
  have requested := List.mem_of_getElem? found
  rcases settled with ⟨op, operand⟩ | ⟨condition, wide, label⟩ <;>
    rcases item with _ | ⟨condition', wide', label'⟩ <;> cases same
  · exact .plain requested
  · cases wide with
    | false =>
      -- the passes end only when no short branch misses its target
      have fits := settle_fits targets items k condition label place
      rw [fitsByte_iff, displacement, next] at fits
      exact .short condition.operand_short rfl fits.1 fits.2
    | true =>
      refine .long condition.operand_long rfl ?_ ?_
      · exact next ▸ offsetOf_le inside (Nat.le_refl _)
      · exact offsetOf_le (count ▸ bounded _ _ _ requested) (Nat.le_refl _)

theorem Laid.ofKind (laid : Laid items size i) (fits : ∀ item ∈ items, item.Fits) : i.OfKind := by
  cases laid with
  | plain requested => exact .inl (fits _ requested)
  | short kind operand => exact .inr ⟨.inl kind, _, operand⟩
  | long kind operand => exact .inr ⟨.inr kind, _, operand⟩

end Layout

/-- The method is a layout of the items. -/
structure Shown (items : List Item) (m : MethodBody) : Prop where
  laid : ∀ i ∈ m.instructions, Laid items m.codeSize i
  placed : ∀ op operand, .plain op operand ∈ items →
    ∃ i ∈ m.instructions, i.opcode = op ∧ i.operand = operand
  sequence : InSequence 0 m.instructions
  codeSize : m.codeSize = bytes (m.instructions.map (·.opcode))

theorem shown_of_finish {locals : List ClosedType} {calls : List Call}
    {returnType : Option ClosedType} {m : MethodBody}
    (finished : ((Encoder.ofLocals locals).serve calls).finish returnType = .ok m) :
    Shown ((Encoder.ofLocals locals).serve calls).items.toList m := by
  obtain ⟨marks, labels⟩ := marks_of_finish finished
  have state := labelled_serve locals calls
  have same := Except.ok.inj ((finish_eq labels returnType).symm.trans finished)
  have instructions := (congrArg MethodBody.instructions same).symm
  have codeSize := (congrArg MethodBody.codeSize same).symm
  have laidOut := state.laidOut labels rfl instructions codeSize
  constructor
  · intro i member
    rw [instructions] at member
    rw [codeSize]
    exact laid_of_mem (state.bounded labels) member
  · intro op operand requested
    rw [instructions]
    exact exists_placed requested
  · intro k i found
    rw [Nat.zero_add]
    exact laidOut.offset found
  · exact laidOut.codeSize

namespace Shown
variable {items : List Item} {m : MethodBody}

/-- A body of no more bytes than a displacement counts is reached everywhere. -/
theorem branchesReach (shown : Shown items m) (fits : ∀ item ∈ items, item.Fits)
    (small : m.codeSize ≤ 2 ^ 31) : m.BranchesReach := by
  intro i member kind target operand
  -- an instruction has at least one byte, so no displacement to the end is the whole size
  have positive := i.opcode.size_pos
  cases shown.laid i member with
  | plain requested =>
    have misfit : i.operand.fits i.opcode.operand = true := fits _ requested
    rw [kind, operand] at misfit
    cases misfit
  | short kind' => rw [kind] at kind'; cases kind'
  | long kind' operand' before inside =>
    obtain rfl : _ = target := Operand.target.inj (operand'.symm.trans operand)
    omega

/-- The fields hold all operands just when they hold the variables that are requested and the long
branches reach their targets. -/
theorem holds_iff (shown : Shown items m) (fits : ∀ item ∈ items, item.Fits) :
    (∀ i ∈ m.instructions, i.Holds) ↔
      (∀ op operand, .plain op operand ∈ items → op.HoldsSlot operand) ∧ m.BranchesReach := by
  constructor
  · intro holds
    constructor
    · intro op operand requested
      obtain ⟨i, member, rfl, rfl⟩ := shown.placed op operand requested
      exact (Opcode.holds_iff_of_fits (fits _ requested)).mp (holds i member)
    · intro i member kind target operand
      have held := holds i member
      simpa [Instruction.Holds, Opcode.Holds, kind, operand] using held
  · rintro ⟨slots, reach⟩ i member
    cases shown.laid i member with
    | plain requested =>
      exact (Opcode.holds_iff_of_fits (fits _ requested)).mpr (slots _ _ requested)
    | short kind operand low high =>
      unfold Instruction.Holds Opcode.Holds
      rw [kind]
      exact ⟨_, operand, low, high⟩
    | long kind operand =>
      unfold Instruction.Holds Opcode.Holds
      rw [kind]
      exact ⟨_, operand, reach i member kind _ operand⟩

end Shown

/-- Whatever requests are met, the bytes of the finished method are as many as it says, and only an
instruction without a field has no operand. The fields hold all operands, and the bytes are read
back as the same instructions, just when the requests that name an instruction give it a variable
that it holds and the long branches reach. The branches of a body of up to two gigabytes do. -/
theorem finished_bytes_read_back {locals : List ClosedType} {calls : List Call}
    {returnType : Option ClosedType} {m : MethodBody} {tokens : TokenTable}
    (accepted : (Encoder.ofLocals locals).Accepts calls)
    (finished : ((Encoder.ofLocals locals).serve calls).finish returnType = .ok m)
    (named : ∀ i ∈ m.instructions, tokens.Names i.operand) :
    (∀ i ∈ m.instructions, i.operand = .none ↔ i.opcode.operand = .none) ∧
      (m.encoding tokens).length = m.codeSize ∧
      ((∀ i ∈ m.instructions, i.Holds) ↔ (∀ c ∈ calls, c.SlotsFit) ∧ m.BranchesReach) ∧
      (readInstructions tokens 0 (m.encoding tokens) = some m.instructions ↔
        ∀ i ∈ m.instructions, i.Holds) ∧
      (m.codeSize ≤ 2 ^ 31 → m.BranchesReach) := by
  have shown := shown_of_finish finished
  have fits := fits_serve accepted (by simp [Encoder.ofLocals])
  have ofKind := fun i member => (shown.laid i member).ofKind fits
  refine ⟨?_, ?_, ?_, ⟨?_, ?_⟩, shown.branchesReach fits⟩
  · intro i member
    exact (ofKind i member).none_iff
  · rw [MethodBody.encoding, length_flatMap_encoding ofKind, shown.codeSize]
  · rw [shown.holds_iff fits, holdsSlot_serve accepted]
  · exact holds_of_readInstructions
  · intro holds
    exact readInstructions_encoding shown.sequence holds named

namespace TokenTable

/-- The tokens of listed strings and members, numbered in the order of the lists. -/
def ofLists (strings members : List String) : TokenTable where
  ofString value := UInt32.ofNat (0x70000001 + strings.idxOf value)
  ofMember text := UInt32.ofNat (0x0A000001 + members.idxOf text)
  string? token := strings[token.toNat - 0x70000001]?
  member? token := members[token.toNat - 0x0A000001]?

theorem getElem?_token {first : Nat} {texts : List String} {text : String} (listed : text ∈ texts)
    (room : first + texts.length ≤ UInt32.size) :
    texts[(UInt32.ofNat (first + texts.idxOf text)).toNat - first]? = some text := by
  have inside := List.idxOf_lt_length_of_mem listed
  rw [UInt32.toNat_ofNat_of_lt' (by omega), Nat.add_sub_cancel_left, List.getElem?_idxOf listed]

/-- Lists that are not longer than their ranges of tokens name what they list. -/
theorem names_ofLists {strings members : List String} {operand : Operand}
    (fewStrings : strings.length < 2 ^ 24) (fewMembers : members.length < 2 ^ 24)
    (listed : match operand with
      | .string value => value ∈ strings
      | .member text => text ∈ members
      | _ => True) : (ofLists strings members).Names operand := by
  have roomy : UInt32.size = 2 ^ 32 := rfl
  cases operand with
  | string value => exact getElem?_token listed (by omega)
  | member text => exact getElem?_token listed (by omega)
  | _ => trivial

end TokenTable

/-- Operands of several kinds, with a branch over some of them. -/
def mixedCalls : List Call :=
  [.newLabel, .emit "ldstr" (.string "on"), .branch "brtrue" ⟨0⟩, .emit "ldloc.s" (.localSlot 200),
    .storeLocal 300, .call "call" "void App::Stop()" 0 0, .placeLabel ⟨0⟩, .pushInt32 (-7),
    .ret true]

def mixedMethod : MethodBody where
  instructions := [⟨0, .ldstr, .string "on"⟩, ⟨5, .brtrueS, .target 18⟩,
    ⟨7, .ldlocS, .localSlot 200⟩, ⟨9, .stloc, .localSlot 300⟩,
    ⟨13, .call, .member "void App::Stop()"⟩, ⟨18, .ldcI4S, .int8 (-7)⟩, ⟨20, .ret, .none⟩]
  maxStack := 1
  locals := []
  codeSize := 21
  returnType := none

set_option maxRecDepth 1000 in
theorem mixedCalls_read_back :
    let tokens := TokenTable.ofLists ["off", "on"] ["void App::Stop()"]
    (Encoder.ofLocals []).Accepts mixedCalls ∧
      ((Encoder.ofLocals []).serve mixedCalls).finish none = .ok mixedMethod ∧
      (∀ i ∈ mixedMethod.instructions, tokens.Names i.operand) ∧
      (∀ i ∈ mixedMethod.instructions, i.Holds) ∧ (mixedMethod.encoding tokens).length = 21 ∧
      readInstructions tokens 0 (mixedMethod.encoding tokens) = some mixedMethod.instructions := by
  intro tokens
  have accepted : (Encoder.ofLocals []).Accepts mixedCalls :=
    ⟨rfl, rfl, rfl, rfl, rfl, rfl, rfl, rfl, rfl, trivial⟩
  have labels : ((Encoder.ofLocals []).serve mixedCalls).labels.toList = [5].map some := by
    decide +kernel
  have finished : ((Encoder.ofLocals []).serve mixedCalls).finish none = .ok mixedMethod := by
    rw [finish_eq labels, settle_eq_self (by decide)]
    rfl
  have named : ∀ i ∈ mixedMethod.instructions, tokens.Names i.operand := by
    refine fun i member => TokenTable.names_ofLists (by decide) (by decide) ?_
    revert i
    simp [mixedMethod]
  have slots : ∀ c ∈ mixedCalls, c.SlotsFit := by
    have string : Opcode.ofMnemonic? "ldstr" = some .ldstr := by decide +kernel
    have slot : Opcode.ofMnemonic? "ldloc.s" = some .ldlocS := by decide +kernel
    simp only [mixedCalls, List.forall_mem_cons]
    refine ⟨trivial, Call.slotsFit_emit string (Opcode.holdsSlot_of_other (by decide)), trivial,
      Call.slotsFit_emit slot ⟨fun _ => ?_, nofun⟩, trivial, trivial, trivial, trivial, trivial,
      nofun⟩
    exact ⟨_, rfl, 200, by decide, rfl⟩
  obtain ⟨-, size, holds, reads, reach⟩ := finished_bytes_read_back accepted finished named
  have held := holds.mpr ⟨slots, reach (by decide)⟩
  exact ⟨accepted, finished, named, held, size, reads.mpr held⟩

/-- The one local that this request loads has an index of two bytes, for a field of one. -/
def wideSlotCalls : List Call :=
  [.emit "ldloc.s" (.localSlot 300)]

/-- Fields do not always hold the operands: an index beyond its field is accepted. -/
theorem wideSlotCalls_accepted :
    ¬ ∀ (locals : List ClosedType) (calls : List Call) (returnType : Option ClosedType)
      (m : MethodBody), (Encoder.ofLocals locals).Accepts calls →
      ((Encoder.ofLocals locals).serve calls).finish returnType = .ok m →
      ∀ i ∈ m.instructions, i.Holds := by
  intro holds
  have labels : ((Encoder.ofLocals []).serve wideSlotCalls).labels.toList = [].map some := rfl
  have finished : ((Encoder.ofLocals []).serve wideSlotCalls).finish none =
      .ok ⟨[⟨0, .ldlocS, .localSlot 300⟩], 1, [], 2, none⟩ := by
    rw [finish_eq labels, settle_eq_self (by decide)]
    rfl
  obtain ⟨slot, sort, index, small, same⟩ :=
    holds [] wideSlotCalls none _ ⟨rfl, trivial⟩ finished _ (List.mem_singleton.mpr rfl)
  cases sort
  cases same
  exact absurd small (by decide)

end DebugExpr.Code
