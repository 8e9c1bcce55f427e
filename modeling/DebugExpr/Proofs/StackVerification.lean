import Mathlib.Data.List.Forall2
import Mathlib.Order.Bounds.Defs
import DebugExpr.Compile
import DebugExpr.Proofs.Branches
import DebugExpr.Proofs.Methods
import DebugExpr.Proofs.StackUse

/-! Verification of the evaluation stack. A method passes if every instruction has one depth at which
control enters it, on whatever path, if the stack holds there what the instruction takes, if no
depth exceeds the stated maximum and one reaches it, and if the only return ends the method with
nothing on the stack but what it returns. Every compiled method passes. -/
namespace DebugExpr.Code
open Metadata DebugExpr.Bound

/-- An instruction with its effect on the stack. -/
structure Annotated where
  instruction : Instruction
  effect : Effect

/-- The instructions with their effects: a call takes and leaves what the member that it calls says,
and shows that member. The members are given in the order of the calls. -/
def annotate (hasValue : Bool) : List Instruction → List Callee → Option (List Annotated)
  | [], [] => some []
  | [], _ :: _ => none
  | i :: rest, callees =>
    match i.opcode.info.effect, callees with
    | .fixed takes leaves, callees =>
      (annotate hasValue rest callees).map (⟨i, takes, leaves⟩ :: ·)
    | .byCaller, callees =>
      if i.opcode = .ret then
        (annotate hasValue rest callees).map (⟨i, returned hasValue, 0⟩ :: ·)
      else
        match callees with
        | [] => none
        | callee :: callees =>
          if i.operand = .member callee.display then
            (annotate hasValue rest callees).map (⟨i, callee.effect⟩ :: ·)
          else none

/-- The offsets at which control goes on behind an instruction. -/
def Instruction.successors (i : Instruction) : List Nat :=
  let next := i.offset + i.opcode.size
  let target := match i.operand with
    | .target offset => [offset]
    | _ => []
  match i.opcode.info.flow with
  | .next => [next]
  | .branch => target
  | .conditionalBranch => next :: target
  | .ret => []

/-- Control reaches the offset with as many values on the stack. An instruction that finds fewer
values than it takes is stuck. -/
inductive Reaches (code : List Annotated) : Nat → Nat → Prop
  | entry : Reaches code 0 0
  | step {a : Annotated} {rest offset : Nat} (member : a ∈ code)
      (before : Reaches code a.instruction.offset (a.effect.takes + rest))
      (goes : offset ∈ a.instruction.successors) : Reaches code offset (a.effect.leaves + rest)

/-- The method passes verification of its stack. -/
structure Verified (m : MethodBody) (code : List Annotated) : Prop where
  /-- The instructions stand one behind the other. -/
  sorted : (m.instructions.map (·.offset)).Pairwise (· < ·)
  /-- Control reaches nothing but instructions, and each with what it takes. -/
  covered : ∀ offset depth, Reaches code offset depth →
    ∃ a ∈ code, a.instruction.offset = offset ∧ a.effect.takes ≤ depth
  /-- Every instruction is reached. -/
  reached : ∀ a ∈ code, ∃ depth, Reaches code a.instruction.offset depth
  unique : ∀ offset depth depth', Reaches code offset depth → Reaches code offset depth' →
    depth = depth'
  maxStack : IsGreatest {depth | ∃ offset, Reaches code offset depth} m.maxStack
  /-- The only return comes last and returns all that is left. -/
  ret : ∃ body last, m.instructions = body ++ [last] ∧ last.opcode = .ret ∧
    (∀ i ∈ body, i.opcode ≠ .ret) ∧
    Reaches code last.offset (if m.returnType.isSome then 1 else 0)

/-- The instructions with the effects given. -/
def pair (instructions : List Instruction) (effects : List Effect) : List Annotated :=
  List.zipWith Annotated.mk instructions effects

/-- The instructions show the items in order. -/
def AllShow (offset : Nat → Nat) (marks : List Nat) : List Instruction → List Item → Prop :=
  List.Forall₂ fun i item => item.Shows offset marks i

/-- Whatever follows, the instructions get the effects and use up the members. -/
structure Annotates (hasValue : Bool) (is : List Instruction) (callees : List Callee)
    (effects : List Effect) : Prop where
  length : is.length = effects.length
  annotate : ∀ {rest : List Instruction} {callees' : List Callee} {code : List Annotated},
    annotate hasValue rest callees' = some code →
      annotate hasValue (is ++ rest) (callees ++ callees') = some (pair is effects ++ code)

namespace Annotates
variable {hasValue : Bool} {is is' : List Instruction} {callees callees' : List Callee}
  {effects effects' : List Effect} {i : Instruction} {offset : Nat → Nat} {marks : List Nat}

theorem nil : Annotates hasValue [] [] [] :=
  ⟨rfl, id⟩

theorem append (first : Annotates hasValue is callees effects)
    (second : Annotates hasValue is' callees' effects') :
    Annotates hasValue (is ++ is') (callees ++ callees') (effects ++ effects') where
  length := by simp [first.length, second.length]
  annotate annotated := by
    have whole := first.annotate (second.annotate annotated)
    simpa [pair, List.zipWith_append first.length] using whole

theorem fixed {takes leaves : Nat} (fixed : i.opcode.info.effect = .fixed takes leaves) :
    Annotates hasValue [i] [] [⟨takes, leaves⟩] where
  length := rfl
  annotate annotated := by simp [Code.annotate, fixed, annotated, pair]

theorem plain {op : Opcode} {operand : Operand} (emittable : Encode.Emittable op operand)
    (shown : (Item.plain op operand).Shows offset marks i) :
    Annotates hasValue [i] [] [op.effect] := by
  obtain ⟨rfl, -⟩ := shown
  unfold Opcode.effect
  split
  · rename_i takes leaves effect
    exact fixed effect
  · rename_i effect
    exact absurd effect emittable.1

theorem form {f : Form} {effect : Effect} (has : f.Has effect)
    (shown : f.item.Shows offset marks i) : Annotates hasValue [i] [] [effect] :=
  has.2 ▸ plain has.1 shown

theorem branch {condition : Condition} {wide : Bool} {label : Label}
    (shown : (Item.branch condition wide label).Shows offset marks i) :
    Annotates hasValue [i] [] [⟨condition.pops, 0⟩] := by
  obtain ⟨opcode | opcode, -⟩ := shown <;> exact fixed (by rw [opcode]; cases condition <;> rfl)

theorem call {op : Opcode} {callee : Callee} (callable : Encode.Callable op)
    (shown : (Item.plain op (.member callee.display)).Shows offset marks i) :
    Annotates hasValue [i] [callee] [callee.effect] where
  length := rfl
  annotate annotated := by
    obtain ⟨rfl, operand⟩ := shown
    have other : i.opcode ≠ .ret := by
      intro ret
      have := callable.2
      rw [ret] at this
      cases this
    simp [Code.annotate, callable.1, other, operand, annotated, pair]

theorem forms {fs : List Form} (has : List.Forall₂ Form.Has fs effects)
    (shown : AllShow offset marks is (fs.map Form.item)) :
    Annotates hasValue is [] effects := by
  induction has generalizing is with
  | nil =>
    obtain rfl := List.forall₂_nil_right_iff.mp shown
    exact nil
  | cons has _ ih =>
    obtain ⟨i, rest, shows, others, rfl⟩ := List.forall₂_cons_right_iff.mp shown
    exact (form has shows).append (ih others)

end Annotates

theorem AllShow.split {offset : Nat → Nat} {marks : List Nat} {is : List Instruction}
    {items items' : List Item} (shown : AllShow offset marks is (items ++ items')) :
    ∃ first second, is = first ++ second ∧ AllShow offset marks first items ∧
      AllShow offset marks second items' :=
  ⟨_, _, (List.take_append_drop items.length is).symm, List.forall₂_take_append _ _ _ shown,
    List.forall₂_drop_append _ _ _ shown⟩

theorem AllShow.one {offset : Nat → Nat} {marks : List Nat} {is : List Instruction} {item : Item}
    (shown : AllShow offset marks is [item]) : ∃ i, is = [i] ∧ item.Shows offset marks i := by
  obtain ⟨i, _, shows, last, rfl⟩ := List.forall₂_cons_right_iff.mp shown
  obtain rfl := List.forall₂_nil_right_iff.mp last
  exact ⟨i, rfl, shows⟩

/-- The instructions of a block call its members. -/
theorem annotates_block {hasValue : Bool} {offset : Nat → Nat} {marks : List Nat} {b : Block}
    (lawful : b.Lawful) {label slot : Nat} {is : List Instruction}
    (shown : AllShow offset marks is (b.items label slot)) :
    Annotates hasValue is b.callees b.effects := by
  induction b generalizing label slot is with
  | skip =>
    obtain rfl := List.forall₂_nil_right_iff.mp shown
    exact .nil
  | fault => exact lawful.elim
  | plain op operand =>
    obtain ⟨i, rfl, shows⟩ := shown.one
    exact .plain lawful shows
  | call op callee =>
    obtain ⟨i, rfl, shows⟩ := shown.one
    exact .call lawful.1 shows
  | seq first second ihFirst ihSecond =>
    obtain ⟨is, is', rfl, shownFirst, shownSecond⟩ := shown.split
    exact (ihFirst lawful.1 shownFirst).append (ihSecond lawful.2 shownSecond)
  | spill type =>
    exact .forms (.cons (Form.storeLocal_has slot) (.cons (Form.loadLocalAddress_has slot) .nil))
      shown
  | keeping type body ih =>
    obtain ⟨is, _, rfl, shown, shownLast⟩ := shown.split
    obtain ⟨_, is, rfl, shownFirst, shownBody⟩ := shown.split
    have copy : Annotates hasValue _ [] [⟨1, 2⟩, ⟨1, 0⟩] :=
      .forms (.cons Block.dup_has (.cons (Form.storeLocal_has slot) .nil)) shownFirst
    have last : Annotates hasValue _ [] [⟨0, 1⟩] :=
      .forms (.cons (Form.loadLocal_has slot) .nil) shownLast
    simpa [Block.callees, Block.effects] using (copy.append (ih lawful shownBody)).append last
  | orElse left right ihLeft ihRight =>
    obtain ⟨_, is', rfl, shown, shownRight⟩ := shown.split
    obtain ⟨is, test, rfl, shownLeft, shownTest⟩ := shown.split
    obtain ⟨copy, _, shownCopy, shownRest, rfl⟩ := List.forall₂_cons_right_iff.mp shownTest
    obtain ⟨jump, drop, shownJump, shownDrop, rfl⟩ := List.forall₂_cons_right_iff.mp shownRest
    have drop : Annotates hasValue drop [] [⟨1, 0⟩] := .forms (.cons Block.pop_has .nil) shownDrop
    have test := (Annotates.form Block.dup_has shownCopy).append
      ((Annotates.branch shownJump).append drop)
    simpa [Condition.pops, Block.callees, Block.effects] using
      ((ihLeft lawful.1 shownLeft).append test).append (ihRight lawful.2.1 shownRight)

theorem mem_pair {instructions : List Instruction} {effects : List Effect} {a : Annotated}
    (member : a ∈ pair instructions effects) :
    ∃ k : Nat, instructions[k]? = some a.instruction ∧ effects[k]? = some a.effect := by
  obtain ⟨k, found⟩ := List.mem_iff_getElem?.mp member
  simp only [pair, List.getElem?_zipWith_eq_some] at found
  obtain ⟨i, e, shown, effect, rfl⟩ := found
  exact ⟨k, shown, effect⟩

theorem pair_mem {instructions : List Instruction} {effects : List Effect} {k : Nat}
    {i : Instruction} {e : Effect} (shown : instructions[k]? = some i)
    (effect : effects[k]? = some e) : ⟨i, e⟩ ∈ pair instructions effects := by
  refine List.mem_of_getElem? (i := k) ?_
  simp [pair, List.getElem?_zipWith, shown, effect]

section Successors
variable {i : Instruction} {item : Item} {offset : Nat → Nat} {marks : List Nat}

theorem successors_of_straight (shows : item.Shows offset marks i) (straight : item.Straight) :
    i.successors = [i.offset + i.opcode.size] := by
  obtain ⟨op, operand, rfl, flow⟩ := straight
  obtain ⟨rfl, -⟩ := shows
  simp [Instruction.successors, flow]

theorem successors_of_branch {label : Label}
    (shows : (Item.branch .ifTrue false label).Shows offset marks i) :
    i.successors = [i.offset + i.opcode.size, offset (marks.getD label.id 0)] := by
  obtain ⟨opcode, operand⟩ := shows
  have flow : i.opcode.info.flow = .conditionalBranch := by
    rcases opcode with opcode | opcode <;> rw [opcode] <;> rfl
  simp [Instruction.successors, flow, operand]

theorem successors_of_ret (shows : (Item.plain .ret .none).Shows offset marks i) :
    i.successors = [] := by
  obtain ⟨opcode, -⟩ := shows
  simp [Instruction.successors, opcode, Opcode.info]

/-- An instruction of a block is no return. -/
theorem ne_ret_of_straight (shows : item.Shows offset marks i) (straight : item.Straight) :
    i.opcode ≠ .ret := by
  obtain ⟨op, operand, rfl, flow⟩ := straight
  obtain ⟨rfl, -⟩ := shows
  rintro ret
  rw [ret] at flow
  cases flow

end Successors

namespace MethodBody.IsOf
variable {m : MethodBody} {locals : List ClosedType} {b : Block} {hasValue : Bool}
  {offset : Nat → Nat}

/-- The depth of the stack before the instruction of an index. -/
def depthBefore (b : Block) (hasValue : Bool) (k : Nat) : Int :=
  ((b.methodEffects hasValue).take k).prod.net

theorem depthBefore_succ {k : Nat} {e : Effect} (effect : (b.methodEffects hasValue)[k]? = some e) :
    depthBefore b hasValue (k + 1) = depthBefore b hasValue k + e.net := by
  simp [depthBefore, List.take_add_one, effect]

theorem depthBefore_of_le {k : Nat} (bound : k ≤ b.effects.length) :
    depthBefore b hasValue k = (b.effects.take k).prod.net := by
  rw [depthBefore, Block.methodEffects, List.take_append_of_le_length bound]

variable (isOf : m.IsOf locals b hasValue offset) (lawful : b.Lawful)
  (exact : b.effect = ⟨0, returned hasValue⟩)

include exact in
theorem depthBefore_last : depthBefore b hasValue b.effects.length = returned hasValue := by
  have whole : b.effects.prod = ⟨0, returned hasValue⟩ := exact
  rw [depthBefore_of_le (Nat.le_refl _), List.take_length, whole]
  simp

include exact in
/-- Every instruction finds what it takes. -/
theorem takes_le {k : Nat} {e : Effect} (effect : (b.methodEffects hasValue)[k]? = some e) :
    (e.takes : Int) ≤ depthBefore b hasValue k := by
  obtain ⟨bound, rfl⟩ := List.getElem?_eq_some_iff.mp effect
  have whole : b.effects.prod = ⟨0, returned hasValue⟩ := exact
  have split := (List.take_append_drop k (b.methodEffects hasValue)).symm
  rw [List.drop_eq_getElem_cons bound] at split
  have deep : (b.methodEffects hasValue).prod.takes ≤ 0 := by
    simp [Block.methodEffects, whole, Effect.mul_def]
  simpa [depthBefore] using takes_le_depth split deep

include isOf in
theorem count : m.instructions.length = b.effects.length + 1 := by
  rw [isOf.placed.length]
  simp [Block.methodItems, Block.items_length]

include isOf in
/-- Every index up to that of the return has an instruction with its item and its effect. -/
theorem at_index {k : Nat} (bound : k ≤ b.effects.length) : ∃ i item e,
    m.instructions[k]? = some i ∧ (b.methodItems locals.length)[k]? = some item ∧
      (b.methodEffects hasValue)[k]? = some e ∧ item.Shows offset (b.marks 0) i := by
  have inside : k < m.instructions.length := by
    rw [isOf.count]
    omega
  have insideItems : k < (b.methodItems locals.length).length := isOf.placed.length ▸ inside
  have insideEffects : k < (b.methodEffects hasValue).length := by
    simp [Block.methodEffects]
    omega
  exact ⟨_, _, _, List.getElem?_eq_getElem inside, List.getElem?_eq_getElem insideItems,
    List.getElem?_eq_getElem insideEffects,
    isOf.placed.shows (List.getElem?_eq_getElem inside) (List.getElem?_eq_getElem insideItems)⟩

include isOf in
theorem offset_injective {k k' : Nat} (bound : k ≤ b.effects.length)
    (bound' : k' ≤ b.effects.length) (same : offset k = offset k') : k = k' := by
  have count : (b.methodItems locals.length).length = b.effects.length + 1 :=
    isOf.placed.length.symm.trans isOf.count
  exact isOf.placed.injective (by omega) (by omega) same

include isOf lawful in
/-- Before the return every instruction lets control go on, and where else it may go the block has a
branch to. -/
theorem successors_jump {k : Nat} (before : k < b.effects.length) {i : Instruction}
    (found : m.instructions[k]? = some i) :
    i.opcode ≠ .ret ∧ offset (k + 1) ∈ i.successors ∧ ∀ next ∈ i.successors,
      ∃ j, next = offset j ∧ (j = k + 1 ∨ b.Jumps k j) := by
  obtain ⟨place, next⟩ := isOf.placed.place found
  obtain ⟨i', item, e, found', foundItem, -, shows⟩ := isOf.at_index (Nat.le_of_lt before)
  obtain rfl : i' = i := by simpa [found] using found'.symm
  have inside : (b.items 0 locals.length)[k]? = some item := by
    rwa [Block.methodItems, List.getElem?_append_left (by rwa [Block.items_length])] at foundItem
  have next : i'.offset + i'.opcode.size = offset (k + 1) := by rw [next, place]
  rcases Block.flow_jumps lawful 0 locals.length 0 inside with straight | ⟨n, j, rfl, mark, jumps⟩
  · refine ⟨ne_ret_of_straight shows straight, ?_⟩
    rw [successors_of_straight shows straight, next]
    simp only [List.mem_singleton, true_and, forall_eq]
    exact ⟨k + 1, rfl, .inl rfl⟩
  · refine ⟨?_, ?_⟩
    · rintro ret
      obtain ⟨opcode | opcode, -⟩ := shows <;> rw [ret] at opcode <;> cases opcode
    have target : (b.marks 0).getD (0 + n) 0 = j := by
      simp [List.getD_eq_getElem?_getD, mark]
    rw [successors_of_branch shows, next, target]
    simp only [List.mem_cons, List.not_mem_nil, or_false, true_or, true_and, forall_eq_or_imp,
      forall_eq]
    exact ⟨⟨k + 1, rfl, .inl rfl⟩, j, rfl, .inr jumps⟩

include isOf lawful in
/-- Wherever control goes the depth is the same. -/
theorem successors_of_lt {k : Nat} (before : k < b.effects.length) {i : Instruction}
    (found : m.instructions[k]? = some i) :
    i.opcode ≠ .ret ∧ offset (k + 1) ∈ i.successors ∧ ∀ next ∈ i.successors,
      ∃ j ≤ b.effects.length, next = offset j ∧
        depthBefore b hasValue j = depthBefore b hasValue (k + 1) := by
  obtain ⟨other, goes, further⟩ := isOf.successors_jump lawful before found
  refine ⟨other, goes, fun next goes => ?_⟩
  obtain ⟨j, rfl, rfl | jumps⟩ := further next goes
  · exact ⟨k + 1, before, rfl, rfl⟩
  · have bound := jumps.later.2
    refine ⟨j, bound, rfl, ?_⟩
    rw [depthBefore_of_le bound, depthBefore_of_le before, jumps.level lawful]

include isOf in
/-- The last instruction is the return. -/
theorem last_shows {i : Instruction} (found : m.instructions[b.effects.length]? = some i) :
    (Item.plain .ret .none).Shows offset (b.marks 0) i := by
  refine isOf.placed.shows found ?_
  have behind : b.effects.length = (b.items 0 locals.length).length :=
    (Block.items_length ..).symm
  rw [Block.methodItems, behind, List.getElem?_concat_length]

/-- The instructions of the method with their effects. -/
def code (m : MethodBody) (b : Block) (hasValue : Bool) : List Annotated :=
  pair m.instructions (b.methodEffects hasValue)

include isOf lawful in
theorem annotates : annotate hasValue m.instructions b.callees = some (code m b hasValue) := by
  have shown : AllShow offset (b.marks 0) m.instructions (b.methodItems locals.length) :=
    List.forall₂_iff_get.mpr ⟨isOf.placed.length, fun k inside insideItems =>
      isOf.placed.shows (List.getElem?_eq_getElem inside) (List.getElem?_eq_getElem insideItems)⟩
  obtain ⟨is, last, split, shownBlock, shownLast⟩ := shown.split
  obtain ⟨i, rfl, opcode, -⟩ := shownLast.one
  have block : Annotates hasValue is b.callees b.effects := annotates_block lawful shownBlock
  have ret : annotate hasValue [i] [] = some [⟨i, returned hasValue, 0⟩] := by
    simp [annotate, opcode, Opcode.info]
  rw [code, Block.methodEffects, split, pair, List.zipWith_append block.length]
  simpa [pair] using block.annotate ret

include isOf in
theorem count_effects : (b.methodEffects hasValue).length = m.instructions.length := by
  simp [isOf.count, Block.methodEffects]

include isOf in
theorem index_le {k : Nat} {i : Instruction} (found : m.instructions[k]? = some i) :
    k ≤ b.effects.length := by
  have inside := (List.getElem?_eq_some_iff.mp found).1
  rw [isOf.count] at inside
  omega

include isOf lawful in
/-- Control reaches instructions only, each at the depth of its index. -/
theorem reaches_depth {place depth : Nat} (reaches : Reaches (code m b hasValue) place depth) :
    ∃ k ≤ b.effects.length, place = offset k ∧ (depth : Int) = depthBefore b hasValue k := by
  induction reaches with
  | entry => exact ⟨0, Nat.zero_le _, isOf.placed.first.symm, rfl⟩
  | @step a rest next member before goes ih =>
    obtain ⟨k, bound, same, level⟩ := ih
    obtain ⟨k', found, effect⟩ := mem_pair member
    obtain rfl : k = k' := isOf.offset_injective bound (isOf.index_le found)
      (same.symm.trans (isOf.placed.place found).1)
    rcases Nat.lt_or_eq_of_le bound with inside | rfl
    · obtain ⟨-, -, further⟩ := isOf.successors_of_lt lawful inside found
      obtain ⟨j, bound, rfl, same⟩ := further next goes
      refine ⟨j, bound, rfl, ?_⟩
      rw [same, depthBefore_succ effect, ← level, Effect.net]
      omega
    · rw [successors_of_ret (isOf.last_shows found)] at goes
      cases goes

include isOf lawful exact in
/-- Control reaches every instruction at the depth of its index. -/
theorem reaches_index {k : Nat} (bound : k ≤ b.effects.length) :
    ∃ depth : Nat, (depth : Int) = depthBefore b hasValue k ∧
      Reaches (code m b hasValue) (offset k) depth := by
  induction k with
  | zero =>
    rw [isOf.placed.first]
    exact ⟨0, rfl, .entry⟩
  | succ k ih =>
    obtain ⟨depth, level, reaches⟩ := ih (Nat.le_of_lt bound)
    obtain ⟨i, item, e, found, -, effect, -⟩ := isOf.at_index (Nat.le_of_lt bound)
    obtain ⟨-, goes, -⟩ := isOf.successors_of_lt lawful bound found
    have enough := takes_le exact effect
    obtain ⟨rest, rfl⟩ := Nat.exists_eq_add_of_le (show e.takes ≤ depth by omega)
    refine ⟨e.leaves + rest, ?_, ?_⟩
    · rw [depthBefore_succ effect, ← level, Effect.net]
      omega
    · rw [← (isOf.placed.place found).1] at reaches
      exact .step (pair_mem found effect) reaches goes

include isOf lawful exact in
theorem isGreatest_maxStack :
    IsGreatest {depth | ∃ place, Reaches (code m b hasValue) place depth} m.maxStack := by
  rw [isOf.maxStack]
  constructor
  · rcases peak_attained 0 (b.methodEffects hasValue) with none | ⟨k, bound, attained⟩
    · exact ⟨0, by rw [none]; exact .entry⟩
    · rw [isOf.count_effects, isOf.count] at bound
      rcases Nat.lt_or_eq_of_le bound with inside | rfl
      · obtain ⟨depth, level, reaches⟩ := isOf.reaches_index lawful exact (Nat.le_of_lt_succ inside)
        obtain rfl : depth = peak 0 (b.methodEffects hasValue) := by
          rw [depthBefore] at level
          omega
        exact ⟨_, reaches⟩
      · -- behind the return nothing is left
        have whole : b.effects.prod = ⟨0, returned hasValue⟩ := exact
        rw [← isOf.count, ← isOf.count_effects, List.take_length] at attained
        have none : peak 0 (b.methodEffects hasValue) = 0 := by
          simpa [Block.methodEffects, whole] using attained
        exact ⟨0, by rw [none]; exact .entry⟩
  · rintro depth ⟨place, reaches⟩
    obtain ⟨k, bound, -, level⟩ := isOf.reaches_depth lawful reaches
    have inside : k ≤ (b.methodEffects hasValue).length := by
      simp [Block.methodEffects]
      omega
    have below := le_peak 0 inside
    rw [depthBefore] at level
    omega

include isOf lawful exact in
/-- A method of a block that takes nothing from the stack and leaves what the method returns passes
verification. -/
theorem verified (returns : m.returnType.isSome = hasValue) : Verified m (code m b hasValue) where
  sorted := by
    rw [List.pairwise_map, List.pairwise_iff_getElem]
    intro k k' inside inside' before
    have place := (isOf.placed.place (List.getElem?_eq_getElem inside)).1
    have place' := (isOf.placed.place (List.getElem?_eq_getElem inside')).1
    rw [place, place']
    rw [isOf.placed.length] at inside'
    exact isOf.placed.increasing k k' before (Nat.le_of_lt inside')
  covered place depth reaches := by
    obtain ⟨k, bound, rfl, level⟩ := isOf.reaches_depth lawful reaches
    obtain ⟨i, item, e, found, -, effect, -⟩ := isOf.at_index bound
    have enough := takes_le exact effect
    exact ⟨⟨i, e⟩, pair_mem found effect, (isOf.placed.place found).1, by simp only; omega⟩
  reached a member := by
    obtain ⟨k, found, -⟩ := mem_pair member
    obtain ⟨depth, -, reaches⟩ := isOf.reaches_index lawful exact (isOf.index_le found)
    exact ⟨depth, (isOf.placed.place found).1 ▸ reaches⟩
  unique place depth depth' reaches reaches' := by
    obtain ⟨k, bound, rfl, level⟩ := isOf.reaches_depth lawful reaches
    obtain ⟨k', bound', same, level'⟩ := isOf.reaches_depth lawful reaches'
    obtain rfl := isOf.offset_injective bound bound' same
    omega
  maxStack := isOf.isGreatest_maxStack lawful exact
  ret := by
    obtain ⟨last, -, -, found, -⟩ := isOf.at_index (Nat.le_refl _)
    have whole : m.instructions = m.instructions.take b.effects.length ++ [last] := by
      have all := List.take_length (l := m.instructions)
      rw [isOf.count, List.take_add_one, found] at all
      exact all.symm
    refine ⟨_, last, whole, (isOf.last_shows found).1, ?_, ?_⟩
    · intro i member
      obtain ⟨k, found⟩ := List.mem_iff_getElem?.mp member
      obtain ⟨inside, found⟩ : k < b.effects.length ∧ m.instructions[k]? = some i := by
        simpa [List.getElem?_take] using found
      exact (isOf.successors_of_lt lawful inside found).1
    · obtain ⟨depth, level, reaches⟩ := isOf.reaches_index lawful exact (Nat.le_refl _)
      rw [depthBefore_last exact] at level
      obtain rfl : depth = returned hasValue := by omega
      rw [returns, (isOf.placed.place found).1]
      exact reaches

end MethodBody.IsOf

end DebugExpr.Code
