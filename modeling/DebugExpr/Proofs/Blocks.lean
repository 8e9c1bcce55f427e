import DebugExpr.Code.Block
import DebugExpr.Proofs.Encoding

/-! What encoding a block does. The instructions of a block, the places of its labels, its
temporaries and its effect on the stack are functions of the block alone. Encoding succeeds just
when the block is lawful and the depths and the slots stay within their limits, and then it appends
exactly these. -/
namespace DebugExpr.Code
open Metadata

def Form.item (f : Form) : Item :=
  .plain f.opcode f.operand

def Callee.effect (c : Callee) : Effect :=
  ⟨c.takes, c.leaves⟩

namespace Block

/-- The effects of the instructions, one for each. -/
def effects : Block → List Effect
  | skip | fault _ => []
  | plain op _ => [op.effect]
  | call _ callee => [callee.effect]
  | seq first second => first.effects ++ second.effects
  | orElse left right => left.effects ++ [⟨1, 2⟩, ⟨1, 0⟩, ⟨1, 0⟩] ++ right.effects
  | spill _ => [⟨1, 0⟩, ⟨0, 1⟩]
  | keeping _ body => [⟨1, 2⟩, ⟨1, 0⟩] ++ body.effects ++ [⟨0, 1⟩]

/-- The effect of the whole block. -/
def effect (b : Block) : Effect :=
  b.effects.prod

/-- Where the labels stand if the block begins at the index, in the order of their creation. -/
def marks (start : Nat) : Block → List Nat
  | skip | fault _ | plain .. | call .. | spill _ => []
  | seq first second => first.marks start ++ second.marks (start + first.effects.length)
  | orElse left right =>
    let next := start + left.effects.length + 3
    (next + right.effects.length) :: (left.marks start ++ right.marks next)
  | keeping _ body => body.marks (start + 2)

/-- The types of the temporaries in the order of their slots. -/
def temporaries : Block → List ClosedType
  | skip | fault _ | plain .. | call .. => []
  | seq first second | orElse first second => first.temporaries ++ second.temporaries
  | spill type => [type]
  | keeping type body => type :: body.temporaries

/-- The members that the block calls, in order. -/
def callees : Block → List Callee
  | skip | fault _ | plain .. | spill _ => []
  | call _ callee => [callee]
  | seq first second | orElse first second => first.callees ++ second.callees
  | keeping _ body => body.callees

/-- The number of labels. -/
def labelCount : Block → Nat
  | skip | fault _ | plain .. | call .. | spill _ => 0
  | seq first second => first.labelCount + second.labelCount
  | orElse left right => left.labelCount + right.labelCount + 1
  | keeping _ body => body.labelCount

/-- The instructions, with labels numbered from the first number on and slots from the second. -/
def items (label slot : Nat) : Block → List Item
  | skip | fault _ => []
  | plain op operand => [.plain op operand]
  | call op callee => [.plain op (.member callee.display)]
  | seq first second =>
    first.items label slot ++
      second.items (label + first.labelCount) (slot + first.temporaries.length)
  | orElse left right =>
    left.items (label + 1) slot ++
      [.plain .dup .none, .branch .ifTrue false ⟨label⟩, .plain .pop .none] ++
      right.items (label + 1 + left.labelCount) (slot + left.temporaries.length)
  | spill _ => [(Form.storeLocal slot).item, (Form.loadLocalAddress slot).item]
  | keeping _ body =>
    [.plain .dup .none, (Form.storeLocal slot).item] ++ body.items label (slot + 1) ++
      [(Form.loadLocal slot).item]

/-- The encoder takes every instruction, and at the end of the right side of a choice the depth is
that of the branch around it. -/
def Lawful : Block → Prop
  | skip | spill _ => True
  | fault _ => False
  | plain op operand => Encode.Emittable op operand
  | call op callee =>
    Encode.Callable op ∧ callee.takes ≤ Encode.maxArguments ∧ callee.leaves ≤ Encode.maxArguments
  | seq first second => first.Lawful ∧ second.Lawful
  | orElse left right => left.Lawful ∧ right.Lawful ∧ right.effect.net = 1
  | keeping _ body => body.Lawful

theorem items_length (b : Block) (label slot : Nat) :
    (b.items label slot).length = b.effects.length := by
  induction b generalizing label slot <;> simp [items, effects, *]

theorem marks_length (b : Block) (start : Nat) : (b.marks start).length = b.labelCount := by
  induction b generalizing start <;> simp [marks, labelCount, *]

end Block

theorem temporaries_append (first second : Block) :
    (first ++ second).temporaries = first.temporaries ++ second.temporaries :=
  rfl

/-- From the depth on, and behind as many local slots, the encoder has room for instructions of the
effects and for the temporaries. -/
def HasRoom (depth : Int) (slots : Nat) (effects : List Effect) (temporaries : List ClosedType) :
    Prop :=
  (∀ d ∈ depthsAfter depth effects, InRange d) ∧
    (temporaries ≠ [] → slots + temporaries.length ≤ UInt16.size)

theorem hasRoom_append {depth : Int} {slots : Nat} {effects effects' : List Effect}
    {temporaries temporaries' : List ClosedType} :
    HasRoom depth slots (effects ++ effects') (temporaries ++ temporaries') ↔
      HasRoom depth slots effects temporaries ∧
        HasRoom (depth + effects.prod.net) (slots + temporaries.length) effects' temporaries' := by
  have slots_iff : (temporaries ++ temporaries' ≠ [] →
        slots + (temporaries ++ temporaries').length ≤ UInt16.size) ↔
      (temporaries ≠ [] → slots + temporaries.length ≤ UInt16.size) ∧
        (temporaries' ≠ [] →
          slots + temporaries.length + temporaries'.length ≤ UInt16.size) := by
    cases temporaries' with
    | nil => simp
    | cons =>
      simp only [ne_eq, List.append_eq_nil_iff, reduceCtorEq, and_false, not_false_eq_true,
        List.length_append, forall_const]
      omega
  simp only [HasRoom, depthsAfter_append, List.forall_mem_append, slots_iff]
  constructor
  · exact fun ⟨⟨first, second⟩, third, fourth⟩ => ⟨⟨first, third⟩, second, fourth⟩
  · exact fun ⟨⟨first, third⟩, second, fourth⟩ => ⟨⟨first, second⟩, third, fourth⟩

/-- Control reaches the next instruction, and branches go only to labels that exist. -/
def Encoder.Open (e : Encoder) : Prop :=
  e.unreachable = false ∧ ∀ branch ∈ e.branchDepths, branch.1.id < e.labels.size

theorem hasRoom_one {depth : Int} {slots : Nat} {effect : Effect} :
    HasRoom depth slots [effect] [] ↔ InRange (depth + effect.net) := by
  simp [HasRoom, depthsAfter]

theorem hasRoom_local {depth : Int} {slots : Nat} {type : ClosedType} :
    HasRoom depth slots [] [type] ↔ slots < UInt16.size := by
  simp only [HasRoom, depthsAfter, List.not_mem_nil, false_imp_iff, implies_true, true_and, ne_eq,
    reduceCtorEq, not_false_eq_true, List.length_singleton, forall_const]
  omega

/-- One encoder continues another, which had room for it, by instructions of the effects, with
labels, placed or not, and locals. The branches that it adds go to labels from the bound on. -/
structure Continues (bound : Nat) (e e' : Encoder) (items : List Item) (effects : List Effect)
    (labels : List (Option Nat)) (locals : List ClosedType) : Prop where
  room : HasRoom e.depth e.locals.size effects locals
  items : e'.items.toList = e.items.toList ++ items
  labels : e'.labels.toList = e.labels.toList ++ labels
  locals : e'.locals.toList = e.locals.toList ++ locals
  depth : e'.depth = e.depth + effects.prod.net
  maxDepth : e'.maxDepth = max e.maxDepth (peak e.depth effects)
  branches : ∃ added, e'.branchDepths = added ++ e.branchDepths ∧
    ∀ branch ∈ added, bound ≤ branch.1.id ∧ branch.1.id < e'.labels.size
  reachable : e'.unreachable = false

namespace Continues
variable {bound : Nat} {e middle e' : Encoder} {items items' : List Item}
  {effects effects' : List Effect} {labels labels' : List (Option Nat)}
  {locals locals' : List ClosedType}

theorem refl (bound : Nat) (reachable : e.unreachable = false) : Continues bound e e [] [] [] [] :=
  ⟨by simp [HasRoom, depthsAfter], by simp, by simp, by simp, by simp, by simp [peak],
    ⟨[], by simp⟩, reachable⟩

theorem labels_size (h : Continues bound e e' items effects labels locals) :
    e'.labels.size = e.labels.size + labels.length := by
  simpa using congrArg List.length h.labels

theorem items_size (h : Continues bound e e' items effects labels locals) :
    e'.items.size = e.items.size + items.length := by
  simpa using congrArg List.length h.items

theorem locals_size (h : Continues bound e e' items effects labels locals) :
    e'.locals.size = e.locals.size + locals.length := by
  simpa using congrArg List.length h.locals

theorem isOpen (h : Continues bound e e' items effects labels locals) (isOpen : e.Open) :
    e'.Open := by
  obtain ⟨added, branches, fresh⟩ := h.branches
  refine ⟨h.reachable, fun branch member => ?_⟩
  rw [branches] at member
  rcases List.mem_append.mp member with member | member
  · exact (fresh branch member).2
  · exact Nat.lt_of_lt_of_le (isOpen.2 branch member) (by simp [h.labels_size])

theorem weaken {lower : Nat} (h : Continues bound e e' items effects labels locals)
    (below : lower ≤ bound) : Continues lower e e' items effects labels locals := by
  obtain ⟨added, branches, fresh⟩ := h.branches
  exact { h with branches := ⟨added, branches, fun branch member =>
    ⟨Nat.le_trans below (fresh branch member).1, (fresh branch member).2⟩⟩ }

theorem trans (first : Continues bound e middle items effects labels locals)
    (second : Continues bound middle e' items' effects' labels' locals') :
    Continues bound e e' (items ++ items') (effects ++ effects') (labels ++ labels')
      (locals ++ locals') where
  room := by
    have := second.room
    rw [first.depth, first.locals_size] at this
    exact hasRoom_append.mpr ⟨first.room, this⟩
  items := by simp [first.items, second.items]
  labels := by simp [first.labels, second.labels]
  locals := by simp [first.locals, second.locals]
  depth := by simp [first.depth, second.depth, add_assoc]
  maxDepth := by
    rw [second.maxDepth, first.maxDepth, first.depth, peak_append, Nat.max_assoc]
  branches := by
    obtain ⟨added, branches, fresh⟩ := first.branches
    obtain ⟨added', branches', fresh'⟩ := second.branches
    refine ⟨added' ++ added, by simp [branches, branches'], ?_⟩
    have := second.labels_size
    intro branch member
    rcases List.mem_append.mp member with member | member
    · exact fresh' branch member
    · have := fresh branch member
      omega
  reachable := second.reachable

theorem after (bound : Nat) (reachable : e.unreachable = false) {effect : Effect}
    (range : InRange (e.depth + effect.net)) (item : Item) :
    Continues bound e (e.after item effect) [item] [effect] [] [] :=
  ⟨hasRoom_one.mpr range, by simp [Encoder.after], by simp [Encoder.after],
    by simp [Encoder.after], by simp [Encoder.after], by simp [Encoder.after, peak],
    ⟨[], by simp [Encoder.after]⟩, reachable⟩

theorem branch (bound : Nat) (reachable : e.unreachable = false)
    (range : InRange (e.depth + Effect.net ⟨1, 0⟩)) (label : Label) (above : bound ≤ label.id)
    (known : label.id < e.labels.size) :
    Continues bound e
      { e.after (.branch .ifTrue false label) ⟨1, 0⟩ with
        branchDepths := (label, e.depth + Effect.net ⟨1, 0⟩) :: e.branchDepths }
      [.branch .ifTrue false label] [⟨1, 0⟩] [] [] :=
  { after bound reachable range _ with
    branches := ⟨[(label, e.depth + Effect.net ⟨1, 0⟩)], rfl,
      by simpa [Encoder.after] using ⟨above, known⟩⟩ }

theorem newLabel (bound : Nat) (reachable : e.unreachable = false) :
    Continues bound e { e with labels := e.labels.push none } [] [] [none] [] :=
  ⟨by simp [HasRoom, depthsAfter], by simp, by simp, by simp, by simp, by simp [peak],
    ⟨[], by simp⟩, reachable⟩

theorem newLocal (bound : Nat) (reachable : e.unreachable = false) (small : e.locals.size < UInt16.size)
    (type : ClosedType) :
    Continues bound e { e with locals := e.locals.push type } [] [] [] [type] :=
  ⟨hasRoom_local.mpr small, by simp, by simp, by simp, by simp, by simp [peak], ⟨[], by simp⟩,
    reachable⟩

/-- The first label that was added is placed. -/
theorem place (h : Continues bound e e' items effects (none :: labels) locals) (index : Nat) :
    Continues bound e
      { e' with labels := e'.labels.setIfInBounds e.labels.size (some index) }
      items effects (some index :: labels) locals :=
  { h with
    labels := by simp [h.labels]
    branches := by simpa using h.branches }

/-- The depth noted for an earlier label stays. -/
theorem expectedDepth?_eq (h : Continues bound e e' items effects labels locals) {label : Label}
    (below : label.id < bound) : e'.expectedDepth? label = e.expectedDepth? label := by
  obtain ⟨added, branches, fresh⟩ := h.branches
  have skipped : added.find? (·.1 == label) = none := by
    simp only [List.find?_eq_none, beq_iff_eq]
    rintro branch member rfl
    have := (fresh branch member).1
    omega
  simp [Encoder.expectedDepth?, branches, List.find?_append, skipped]

theorem added_getElem? (h : Continues bound e e' items effects (none :: labels) locals) :
    e'.labels[e.labels.size]? = some none := by
  rw [← Array.getElem?_toList, h.labels]
  simp

end Continues

theorem Encoder.Open.expectedDepth?_eq {e : Encoder} (isOpen : e.Open) :
    e.expectedDepth? ⟨e.labels.size⟩ = none := by
  have absent : e.branchDepths.find? (·.1 == ⟨e.labels.size⟩) = none := by
    simp only [List.find?_eq_none, beq_iff_eq]
    rintro branch member equal
    have := isOpen.2 branch member
    simp [equal] at this
  simp [Encoder.expectedDepth?, absent]

/-- The encoder takes the instruction, and its effect is the one given. -/
def Form.Has (f : Form) (effect : Effect) : Prop :=
  Encode.Emittable f.opcode f.operand ∧ f.opcode.effect = effect

instance (f : Form) (effect : Effect) : Decidable (f.Has effect) :=
  inferInstanceAs (Decidable (_ ∧ _))

namespace Form

theorem Has.of_info {op : Opcode} {operand : Operand} {takes leaves : Nat}
    (effect : op.info.effect = .fixed takes leaves) (flow : op.info.flow = .next)
    (fits : operand.fits op.operand = true) : (⟨op, operand⟩ : Form).Has ⟨takes, leaves⟩ :=
  ⟨⟨by simp [effect], flow, fits⟩, by simp [Opcode.effect, effect]⟩

theorem slot_has {effect : Effect} {forms : List Opcode} {byteForm wordForm : Opcode}
    {operand : Operand} (index : Nat) (implicit : ∀ op ∈ forms, (⟨op, .none⟩ : Form).Has effect)
    (byte : (⟨byteForm, operand⟩ : Form).Has effect)
    (word : (⟨wordForm, operand⟩ : Form).Has effect) :
    (slot forms byteForm wordForm operand index).Has effect := by
  unfold slot
  split
  · rename_i found
    exact implicit _ (List.mem_of_getElem? found)
  · split
    · exact byte
    · exact word

theorem loadLocal_has (index : Nat) : (loadLocal index).Has ⟨0, 1⟩ :=
  slot_has index (by decide) (.of_info rfl rfl rfl) (.of_info rfl rfl rfl)

theorem storeLocal_has (index : Nat) : (storeLocal index).Has ⟨1, 0⟩ :=
  slot_has index (by decide) (.of_info rfl rfl rfl) (.of_info rfl rfl rfl)

theorem loadLocalAddress_has (index : Nat) : (loadLocalAddress index).Has ⟨0, 1⟩ :=
  slot_has index (by decide) (.of_info rfl rfl rfl) (.of_info rfl rfl rfl)

theorem loadArgument_has (index : Nat) : (loadArgument index).Has ⟨0, 1⟩ :=
  slot_has index (by decide) (.of_info rfl rfl rfl) (.of_info rfl rfl rfl)

theorem storeArgument_has (index : Nat) : (storeArgument index).Has ⟨1, 0⟩ :=
  slot_has index (by decide) (.of_info rfl rfl rfl) (.of_info rfl rfl rfl)

theorem loadArgumentAddress_has (index : Nat) : (loadArgumentAddress index).Has ⟨0, 1⟩ :=
  slot_has index (by decide) (.of_info rfl rfl rfl) (.of_info rfl rfl rfl)

theorem Has.ite {test : Prop} [Decidable test] {yes no : Form} {effect : Effect}
    (hyes : yes.Has effect) (hno : no.Has effect) : (if test then yes else no).Has effect := by
  split
  · exact hyes
  · exact hno

theorem int32_has (value : Int32) : (int32 value).Has ⟨0, 1⟩ := by
  unfold int32
  repeat' apply Has.ite
  all_goals exact .of_info rfl rfl rfl

theorem int64_has (value : Int64) : (int64 value).Has ⟨0, 1⟩ :=
  .of_info rfl rfl rfl

end Form

namespace Block
open Encode
variable {e e' : Encoder}

theorem emitForm_runs (reachable : e.unreachable = false) {f : Form} {effect : Effect}
    (has : f.Has effect) {u : Unit} :
    Runs (emitForm f) e u e' ↔ InRange (e.depth + effect.net) ∧ e' = e.after f.item effect := by
  obtain ⟨emittable, rfl⟩ := has
  unfold emitForm
  rw [emit_runs reachable]
  simp [emittable, Form.item]

theorem emitForm_continues (bound : Nat) (reachable : e.unreachable = false) {f : Form}
    {effect : Effect} (has : f.Has effect) {u : Unit} (runs : Runs (emitForm f) e u e') :
    Continues bound e e' [f.item] [effect] [] [] := by
  obtain ⟨range, rfl⟩ := (emitForm_runs reachable has).mp runs
  exact .after bound reachable range _

theorem dup_has : (⟨.dup, .none⟩ : Form).Has ⟨1, 2⟩ :=
  .of_info rfl rfl rfl

theorem pop_has : (⟨.pop, .none⟩ : Form).Has ⟨1, 0⟩ :=
  .of_info rfl rfl rfl

/-- The label of a choice is new where the branch to it stands: the branches of the left side go to
later labels. -/
theorem label_new (isOpen : e.Open) {copy : Encoder} {items : List Item} {effects : List Effect}
    {labels : List (Option Nat)} {locals : List ClosedType}
    (value : Continues (e.labels.size + 1) { e with labels := e.labels.push none } copy items effects
      labels locals) :
    e.labels.size < copy.labels.size ∧ copy.expectedDepth? ⟨e.labels.size⟩ = none := by
  constructor
  · have size := value.labels_size
    simp only [Array.size_push] at size
    omega
  · exact (value.expectedDepth?_eq (Nat.lt_succ_self e.labels.size)).trans isOpen.expectedDepth?_eq

/-- What follows the branch of a choice keeps the depth that the branch noted. -/
theorem label_noted {copy last : Encoder} {label : Label} {item : Item} {effect : Effect}
    {depth : Int} {items : List Item} {effects : List Effect} {labels : List (Option Nat)}
    {locals : List ClosedType}
    (after : Continues (label.id + 1)
      { copy.after item effect with branchDepths := (label, depth) :: copy.branchDepths }
      last items effects labels locals) :
    last.expectedDepth? label = some depth := by
  rw [after.expectedDepth?_eq (Nat.lt_succ_self _)]
  simp [Encoder.expectedDepth?]

/-- If the block is encoded it is lawful, and the encoder had room for it and is continued by it. -/
def EncodesSoundly (b : Block) : Prop :=
  ∀ ⦃e e' : Encoder⦄ ⦃u : Unit⦄, e.Open → Runs b.encode e u e' →
    b.Lawful ∧ Continues e.labels.size e e' (b.items e.labels.size e.locals.size) b.effects
      ((b.marks e.items.size).map some) b.temporaries

theorem EncodesSoundly.seq {first second : Block} (soundFirst : first.EncodesSoundly)
    (soundSecond : second.EncodesSoundly) : (seq first second).EncodesSoundly := by
  intro e e' u isOpen runs
  obtain ⟨_, middle, runsFirst, runsSecond⟩ := runs_bind.mp runs
  obtain ⟨lawful, continues⟩ := soundFirst isOpen runsFirst
  obtain ⟨lawful', continues'⟩ := soundSecond (continues.isOpen isOpen) runsSecond
  have both := continues.trans (continues'.weaken (by simp [continues.labels_size]))
  rw [continues.labels_size, continues.locals_size, continues.items_size, List.length_map,
    marks_length, items_length, ← List.map_append] at both
  exact ⟨⟨lawful, lawful'⟩, both⟩

theorem EncodesSoundly.keeping {body : Block} (sound : body.EncodesSoundly) (type : ClosedType) :
    (keeping type body).EncodesSoundly := by
  intro e e' u isOpen runs
  obtain ⟨_, _, copies, runs⟩ := runs_bind.mp runs
  obtain ⟨slot, _, creates, runs⟩ := runs_bind.mp runs
  obtain ⟨small, rfl, rfl⟩ := newLocal_runs.mp creates
  obtain ⟨_, _, stores, runs⟩ := runs_bind.mp runs
  obtain ⟨_, _, runsBody, loads⟩ := runs_bind.mp runs
  have copied := emitForm_continues e.labels.size isOpen.1 dup_has copies
  have created := Continues.newLocal e.labels.size copied.reachable small type
  have stored := emitForm_continues e.labels.size created.reachable (Form.storeLocal_has _) stores
  have before := (copied.trans created).trans stored
  obtain ⟨lawful, continues⟩ := sound (before.isOpen isOpen) runsBody
  have loaded := emitForm_continues e.labels.size continues.reachable (Form.loadLocal_has _) loads
  have whole := (before.trans (continues.weaken (by simp [before.labels_size]))).trans loaded
  simp [before.labels_size, before.locals_size, before.items_size, copied.locals_size] at whole
  refine ⟨lawful, ?_⟩
  simpa [items, effects, marks, temporaries, Form.item] using whole

/-- The branch of a choice notes the depth behind the left operand, and the label is placed only at
that depth: so the right operand has pushed one value where the left one was dropped. -/
theorem EncodesSoundly.orElse {left right : Block} (soundLeft : left.EncodesSoundly)
    (soundRight : right.EncodesSoundly) : (orElse left right).EncodesSoundly := by
  intro e e' u isOpen runs
  obtain ⟨label, _, creates, runs⟩ := runs_bind.mp runs
  obtain ⟨rfl, rfl⟩ := newLabel_runs.mp creates
  obtain ⟨_, _, runsLeft, runs⟩ := runs_bind.mp runs
  obtain ⟨_, copy, copies, runs⟩ := runs_bind.mp runs
  obtain ⟨_, _, branches, runs⟩ := runs_bind.mp runs
  obtain ⟨_, dropEnd, drops, runs⟩ := runs_bind.mp runs
  obtain ⟨_, last, runsRight, places⟩ := runs_bind.mp runs
  have created := Continues.newLabel e.labels.size isOpen.1
  have grown : (e.labels.push none).size = e.labels.size + 1 := Array.size_push ..
  obtain ⟨lawfulLeft, continuesLeft⟩ := soundLeft (created.isOpen isOpen) runsLeft
  have copied := emitForm_continues (e.labels.size + 1) continuesLeft.reachable dup_has copies
  simp only [grown] at continuesLeft
  have value := continuesLeft.trans copied
  obtain ⟨known, first⟩ := label_new isOpen value
  obtain ⟨range, rfl⟩ := (branch_runs value.reachable known first).mp branches
  have branched := Continues.branch e.labels.size value.reachable range ⟨e.labels.size⟩
    (Nat.le_refl _) known
  have before := (created.trans (value.weaken (Nat.le_succ _))).trans branched
  have dropped := emitForm_continues (e.labels.size + 1) before.reachable pop_has drops
  have isOpen' := dropped.isOpen (before.isOpen isOpen)
  obtain ⟨lawfulRight, continuesRight⟩ := soundRight isOpen' runsRight
  have bound : e.labels.size + 1 ≤ _ := Nat.le_trans known (Nat.le_of_eq dropped.labels_size.symm)
  have after := dropped.trans (continuesRight.weaken bound)
  have whole := before.trans (after.weaken (Nat.le_succ _))
  obtain ⟨level, rfl⟩ :=
    (placeLabel_runs whole.reachable whole.added_getElem? (label_noted after)).mp places
  have placed := whole.place last.items.size
  refine ⟨⟨lawfulLeft, lawfulRight, ?_⟩, ?_⟩
  · have fallsThrough := continuesRight.depth
    rw [dropped.depth] at fallsThrough
    simp only [Encoder.after, level, List.prod_cons, List.prod_nil, mul_one, Effect.net_mk]
      at fallsThrough
    simp only [effect]
    omega
  · have labels : dropEnd.labels.size = e.labels.size + 1 + left.labelCount := by
      rw [dropped.labels_size, before.labels_size]
      simp [marks_length, Nat.add_assoc, Nat.add_comm]
    have locals : dropEnd.locals.size = e.locals.size + left.temporaries.length := by
      rw [dropped.locals_size, before.locals_size]
      simp
    have items : dropEnd.items.size = e.items.size + left.effects.length + 3 := by
      rw [dropped.items_size, before.items_size]
      simp [items_length, Nat.add_assoc]
    have lastItems : last.items.size =
        e.items.size + left.effects.length + 3 + right.effects.length := by
      rw [whole.items_size]
      simp [items_length]
      omega
    simp only [labels, locals, items] at placed
    simpa [Block.items, effects, marks, temporaries, Form.item, lastItems] using placed

theorem encode_sound {b : Block} : b.EncodesSoundly := by
  induction b with
  | skip =>
    intro e e' u isOpen runs
    obtain ⟨-, rfl⟩ := runs_pure.mp runs
    exact ⟨trivial, .refl _ isOpen.1⟩
  | fault f => exact fun _ _ _ _ runs => absurd runs not_runs_throw
  | plain op operand =>
    intro e e' u isOpen runs
    obtain ⟨emittable, range, rfl⟩ := (emit_runs isOpen.1).mp runs
    exact ⟨emittable, .after _ isOpen.1 range _⟩
  | call op callee =>
    intro e e' u isOpen runs
    obtain ⟨callable, takes, leaves, range, rfl⟩ := (call_runs isOpen.1).mp runs
    exact ⟨⟨callable, takes, leaves⟩, .after _ isOpen.1 range _⟩
  | seq first second soundFirst soundSecond => exact soundFirst.seq soundSecond
  | spill type =>
    intro e e' u isOpen runs
    obtain ⟨slot, _, creates, runs⟩ := runs_bind.mp runs
    obtain ⟨small, rfl, rfl⟩ := newLocal_runs.mp creates
    obtain ⟨_, middle, stores, loads⟩ := runs_bind.mp runs
    have created := Continues.newLocal e.labels.size isOpen.1 small type
    have stored := emitForm_continues e.labels.size created.reachable (Form.storeLocal_has _) stores
    have loaded := emitForm_continues e.labels.size stored.reachable (Form.loadLocalAddress_has _) loads
    exact ⟨trivial, (created.trans stored).trans loaded⟩
  | keeping type body sound => exact sound.keeping type
  | orElse left right soundLeft soundRight => exact soundLeft.orElse soundRight

theorem hasRoom_cons {depth : Int} {slots : Nat} {effect : Effect} {rest : List Effect}
    {temporaries : List ClosedType} :
    HasRoom depth slots (effect :: rest) temporaries ↔
      InRange (depth + effect.net) ∧ HasRoom (depth + effect.net) slots rest temporaries := by
  simp [HasRoom, depthsAfter, and_assoc]

theorem succeeds_emitForm {β : Type} {f : Form} {effect : Effect} {rest : Unit → Encode β}
    (reachable : e.unreachable = false) (has : f.Has effect)
    (range : InRange (e.depth + effect.net)) (next : Succeeds (rest ()) (e.after f.item effect)) :
    Succeeds (emitForm f >>= rest) e :=
  .bind ((emitForm_runs reachable has).mpr ⟨range, rfl⟩) next

theorem succeeds_lastForm {f : Form} {effect : Effect} (reachable : e.unreachable = false)
    (has : f.Has effect) (range : InRange (e.depth + effect.net)) : Succeeds (emitForm f) e :=
  ⟨(), _, (emitForm_runs reachable has).mpr ⟨range, rfl⟩⟩

/-- If the block is lawful it is encoded where there is room for it. -/
def EncodesCompletely (b : Block) : Prop :=
  ∀ ⦃e : Encoder⦄, e.Open → b.Lawful → HasRoom e.depth e.locals.size b.effects b.temporaries →
    Succeeds b.encode e

theorem EncodesCompletely.seq {first second : Block} (completeFirst : first.EncodesCompletely)
    (completeSecond : second.EncodesCompletely) : (seq first second).EncodesCompletely := by
  intro e isOpen lawful room
  obtain ⟨roomFirst, roomSecond⟩ := hasRoom_append.mp room
  obtain ⟨_, middle, runsFirst⟩ := completeFirst isOpen lawful.1 roomFirst
  have continues := (encode_sound isOpen runsFirst).2
  rw [← continues.depth, ← continues.locals_size] at roomSecond
  exact .bind runsFirst (completeSecond (continues.isOpen isOpen) lawful.2 roomSecond)

theorem EncodesCompletely.keeping {body : Block} (complete : body.EncodesCompletely)
    (type : ClosedType) : (keeping type body).EncodesCompletely := by
  intro e isOpen lawful room
  obtain ⟨copied, stored, roomBody⟩ := (hasRoom_cons.mp room).imp_right hasRoom_cons.mp
  obtain ⟨created, roomBody⟩ : HasRoom _ e.locals.size [] [type] ∧
      HasRoom _ _ (body.effects ++ [⟨0, 1⟩]) (body.temporaries ++ []) :=
    hasRoom_append.mp (by simpa [temporaries] using roomBody)
  obtain ⟨roomBody, loaded⟩ := hasRoom_append.mp roomBody
  refine succeeds_emitForm isOpen.1 dup_has copied ?_
  refine .bind (newLocal_runs.mpr ⟨hasRoom_local.mp created, rfl, rfl⟩) ?_
  refine succeeds_emitForm isOpen.1 (Form.storeLocal_has _) stored ?_
  have copied := Continues.after e.labels.size isOpen.1 copied (Form.item ⟨.dup, .none⟩)
  have created := Continues.newLocal e.labels.size copied.reachable (hasRoom_local.mp created) type
  have stored := Continues.after e.labels.size created.reachable stored
    (Form.storeLocal e.locals.size).item
  have before := (copied.trans created).trans stored
  obtain ⟨_, last, runs⟩ := complete (before.isOpen isOpen) lawful (by
    rw [before.depth, before.locals_size]
    simpa using roomBody)
  have continues := (encode_sound (before.isOpen isOpen) runs).2
  refine .bind runs (succeeds_lastForm continues.reachable (Form.loadLocal_has _) ?_)
  rw [continues.depth, before.depth]
  simpa [HasRoom, depthsAfter] using loaded

theorem EncodesCompletely.orElse {left right : Block} (completeLeft : left.EncodesCompletely)
    (completeRight : right.EncodesCompletely) : (orElse left right).EncodesCompletely := by
  intro e isOpen lawful room
  obtain ⟨lawfulLeft, lawfulRight, level⟩ := lawful
  obtain ⟨roomLeft, roomRest⟩ : HasRoom e.depth e.locals.size left.effects left.temporaries ∧
      HasRoom _ _ (⟨1, 2⟩ :: ⟨1, 0⟩ :: ⟨1, 0⟩ :: right.effects) right.temporaries :=
    hasRoom_append.mp (by simpa [effects, temporaries] using room)
  obtain ⟨copied, roomRest⟩ := hasRoom_cons.mp roomRest
  obtain ⟨branched, roomRest⟩ := hasRoom_cons.mp roomRest
  obtain ⟨dropped, roomRight⟩ := hasRoom_cons.mp roomRest
  refine .bind (newLabel_runs.mpr ⟨rfl, rfl⟩) ?_
  have created := Continues.newLabel e.labels.size isOpen.1
  obtain ⟨_, value, runsLeft⟩ := completeLeft (created.isOpen isOpen) lawfulLeft roomLeft
  have left' := (encode_sound (created.isOpen isOpen) runsLeft).2
  refine .bind runsLeft ?_
  rw [← left'.depth] at copied branched dropped roomRight
  refine succeeds_emitForm left'.reachable dup_has copied ?_
  have copied := Continues.after (e.labels.size + 1) left'.reachable copied
    (Form.item ⟨.dup, .none⟩)
  have grown : (e.labels.push none).size = e.labels.size + 1 := Array.size_push ..
  simp only [grown] at left'
  have value' := left'.trans copied
  obtain ⟨known, first⟩ := label_new isOpen value'
  refine .bind (a := ()) ((branch_runs value'.reachable known first).mpr ⟨branched, rfl⟩) ?_
  have branched := Continues.branch e.labels.size value'.reachable branched ⟨e.labels.size⟩
    (Nat.le_refl _) known
  have before := (created.trans (value'.weaken (Nat.le_succ _))).trans branched
  refine succeeds_emitForm before.reachable pop_has dropped ?_
  have dropped := Continues.after (e.labels.size + 1) before.reachable dropped
    (Form.item ⟨.pop, .none⟩)
  have isOpen' := dropped.isOpen (before.isOpen isOpen)
  obtain ⟨_, last, runsRight⟩ := completeRight isOpen' lawfulRight (by
    rw [dropped.locals_size, before.locals_size]
    simpa [Encoder.after] using roomRight)
  refine .bind runsRight ?_
  have right' := (encode_sound isOpen' runsRight).2
  have after := dropped.trans (right'.weaken
    (Nat.le_trans known (Nat.le_of_eq dropped.labels_size.symm)))
  have whole := before.trans (after.weaken (Nat.le_succ _))
  refine ⟨(), _, (placeLabel_runs whole.reachable whole.added_getElem? (label_noted after)).mpr
    ⟨?_, rfl⟩⟩
  rw [after.depth]
  simp only [effect] at level
  simp [Encoder.after, level]

theorem encode_complete {b : Block} : b.EncodesCompletely := by
  induction b with
  | skip => exact fun e _ _ _ => ⟨(), e, runs_pure.mpr ⟨rfl, rfl⟩⟩
  | fault f => exact fun _ _ lawful _ => lawful.elim
  | plain op operand =>
    intro e isOpen lawful room
    exact ⟨(), _, (emit_runs isOpen.1).mpr ⟨lawful, hasRoom_one.mp room, rfl⟩⟩
  | call op callee =>
    intro e isOpen lawful room
    obtain ⟨callable, takes, leaves⟩ := lawful
    exact ⟨(), _, (call_runs isOpen.1).mpr ⟨callable, takes, leaves, hasRoom_one.mp room, rfl⟩⟩
  | seq first second completeFirst completeSecond => exact completeFirst.seq completeSecond
  | spill type =>
    intro e isOpen lawful room
    obtain ⟨stored, loaded, -, small⟩ := (hasRoom_cons.mp room).imp_right hasRoom_cons.mp
    refine .bind (newLocal_runs.mpr ⟨small (by simp [temporaries]), rfl, rfl⟩) ?_
    exact succeeds_emitForm isOpen.1 (Form.storeLocal_has _) stored
      (succeeds_lastForm isOpen.1 (Form.loadLocalAddress_has _) loaded)
  | keeping type body complete => exact complete.keeping type
  | orElse left right completeLeft completeRight => exact completeLeft.orElse completeRight

end Block

end DebugExpr.Code
