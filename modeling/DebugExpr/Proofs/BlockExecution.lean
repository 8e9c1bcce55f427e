import DebugExpr.Proofs.Methods
import DebugExpr.Proofs.StackMachine

/-! Execution of blocks. A block runs by its structure, with no branches and no offsets, and the
machine that runs the finished method goes through the instructions of the block to the same
configuration or ends with the same trap. -/
namespace DebugExpr.Code
open Metadata DebugExpr.Bound

variable {kinds : Memory (Option Kind)}

/-- Runs the code of a block from a configuration. -/
def Block.run (kinds : Memory (Option Kind)) : Block → Config → Except Trap Config
  | skip, c => .ok c
  | plain op operand, c => execute kinds op operand c
  | seq first second, c => do second.run kinds (← first.run kinds c)
  | orElse left right, c => do
    let c ← left.run kinds c
    let c ← c.dup
    let (taken, c) ← c.test .ifTrue
    if taken then return c else right.run kinds (← c.drop)
  | _, _ => .error .undefined

/-- A test fails only where there is nothing to test. -/
theorem test_undefined {condition : Condition} {c : Config} {trap : Trap}
    (fails : c.test condition = .error trap) : trap = .undefined := by
  unfold Config.test at fails
  split at fails
  · cases fails
  · rename_i slot rest _
    cases truth : slot.isTrue? with
    | none => simpa [truth] using fails.symm
    | some => simp [truth] at fails
  · rename_i slot rest _
    cases truth : slot.isTrue? with
    | none => simpa [truth] using fails.symm
    | some => simp [truth] at fails
  · simpa using fails.symm

/-- Branches and returns are not executed for themselves. -/
theorem execute_condition {op : Opcode} {condition : Condition}
    (branches : op.condition? = some condition) (operand : Operand) (c : Config) :
    execute kinds op operand c = .error .undefined := by
  unfold Opcode.condition? at branches
  split at branches <;> first | rfl | cases branches

/-- The index of an instruction is found by its offset. -/
theorem Placed.find?_eq {instructions : List Instruction} {items : List Item} {marks : List Nat}
    {offset : Nat → Nat} (placed : Placed instructions items marks offset) {k : Nat}
    {i : Instruction} (found : instructions[k]? = some i) :
    instructions.find? (·.offset == offset k) = some i := by
  have place := (placed.place found).1
  have exists_ : (instructions.find? (·.offset == offset k)).isSome := by
    rw [List.find?_isSome]
    exact ⟨i, List.mem_of_getElem? found, by simp [place]⟩
  obtain ⟨i', find⟩ := Option.isSome_iff_exists.mp exists_
  have same : i'.offset = offset k := by simpa using List.find?_some find
  obtain ⟨k', found'⟩ := List.mem_iff_getElem?.mp (List.mem_of_find?_eq_some find)
  have place' := (placed.place found').1
  have inside := (List.getElem?_eq_some_iff.mp found).1
  have inside' := (List.getElem?_eq_some_iff.mp found').1
  rw [placed.length] at inside inside'
  -- offsets increase, so no other instruction has this one
  obtain rfl : k = k' := by
    rcases Nat.lt_trichotomy k k' with before | rfl | behind
    · have := placed.increasing k k' before (Nat.le_of_lt inside')
      omega
    · rfl
    · have := placed.increasing k' k behind (Nat.le_of_lt inside)
      omega
  rw [find, Option.some.inj (found'.symm.trans found)]

namespace MethodBody
variable {m : MethodBody} {s : State} {middle last k : Nat} {c : Config}

/-- The run from the state comes to the offset with the configuration, or ends with the trap. Nothing
is said of code without a meaning. -/
def Leads (m : MethodBody) (kinds : Memory (Option Kind)) (s : State) (offset : Nat) :
    Except Trap Config → Prop
  | .ok c => ∀ outcome, m.Ends kinds ⟨offset, c⟩ outcome → m.Ends kinds s outcome
  | .error trap => trap ≠ .undefined → m.Ends kinds s (.trapped trap)

theorem Leads.bind {first : Except Trap Config} {next : Config → Except Trap Config}
    (leads : m.Leads kinds s middle first)
    (further : ∀ c, first = .ok c → m.Leads kinds ⟨middle, c⟩ last (next c)) :
    m.Leads kinds s last (first >>= next) := by
  match first with
  | .error trap => exact leads
  | .ok c =>
    have further := further c rfl
    change m.Leads kinds s last (next c)
    cases result : next c with
    | error trap =>
      rw [result] at further
      exact fun other => leads _ (further other)
    | ok c' =>
      rw [result] at further
      exact fun outcome ends => leads _ (further outcome ends)

theorem Leads.of_step {s' : State} {result : Except Trap Config} (steps : m.step kinds s = .ok s')
    (leads : m.Leads kinds s' last result) : m.Leads kinds s last result := by
  cases result with
  | ok c => exact fun outcome ends => .next steps (leads outcome ends)
  | error trap => exact fun other => .next steps (leads other)

variable {items : List Item} {marks : List Nat} {offset : Nat → Nat} {i : Instruction}

/-- A straight instruction is executed and control goes on behind it. -/
theorem leads_plain (placed : Placed m.instructions items marks offset)
    (found : m.instructions[k]? = some i) {op : Opcode} {operand : Operand}
    (shows : (Item.plain op operand).Shows offset marks i) (c : Config) :
    m.Leads kinds ⟨offset k, c⟩ (offset (k + 1)) (execute kinds op operand c) := by
  obtain ⟨rfl, rfl⟩ := shows
  obtain ⟨place, next⟩ := placed.place found
  have finds := placed.find?_eq found
  by_cases ret : i.opcode = .ret
  · rw [ret]
    exact fun other => absurd rfl other
  cases branches : i.opcode.condition? with
  | some condition =>
    rw [execute_condition branches]
    exact fun other => absurd rfl other
  | none =>
    cases result : execute kinds i.opcode i.operand c with
    | ok c' =>
      have steps : m.step kinds ⟨offset k, c⟩ = .ok ⟨offset (k + 1), c'⟩ := by
        simp [step, finds, ret, branches, result, place, next]
      exact .of_step steps fun _ ends => ends
    | error trap =>
      exact fun _ => .stop (by simp [step, finds, ret, branches, result])

/-- A branch goes to the place of its label or behind itself. -/
theorem step_branch (kinds : Memory (Option Kind)) (placed : Placed m.instructions items marks offset)
    (found : m.instructions[k]? = some i) {label : Label} {target : Nat}
    (shows : (Item.branch .ifTrue false label).Shows offset marks i)
    (mark : marks[label.id]? = some target) {taken : Bool} {c c' : Config}
    (tests : c.test .ifTrue = .ok (taken, c')) :
    m.step kinds ⟨offset k, c⟩ = .ok ⟨if taken then offset target else offset (k + 1), c'⟩ := by
  obtain ⟨opcode, operand⟩ := shows
  obtain ⟨place, next⟩ := placed.place found
  have finds := placed.find?_eq found
  have branches : i.opcode ≠ .ret ∧ i.opcode.condition? = some .ifTrue := by
    rcases opcode with opcode | opcode <;> rw [opcode] <;> exact ⟨by decide, rfl⟩
  have behind : offset k + i.opcode.size = offset (k + 1) := next.symm
  simp [step, finds, branches.1, branches.2, operand, tests, mark, place, behind,
    List.getD_eq_getElem?_getD]

theorem ends_ret (placed : Placed m.instructions items marks offset)
    (found : m.instructions[k]? = some i)
    (shows : (Item.plain .ret .none).Shows offset marks i) (c : Config) :
    m.Ends kinds ⟨offset k, c⟩ c.ret := by
  refine .stop ?_
  simp [step, placed.find?_eq found, shows.1]

end MethodBody

namespace Block
variable {m : MethodBody} {items : List Item} {marks : List Nat} {offset : Nat → Nat}
  {former latter left right b : Block} {label slot start : Nat}

/-- The block stands in the method from the index on, with labels and slots from the given numbers
on. -/
structure Stands (m : MethodBody) (offset : Nat → Nat) (marks : List Nat) (b : Block)
    (label slot start : Nat) : Prop where
  shows : ∀ {j : Nat} {item : Item}, (b.items label slot)[j]? = some item →
    ∃ i, m.instructions[start + j]? = some i ∧ item.Shows offset marks i
  marks : ∀ {j n : Nat}, (b.marks start)[j]? = some n → marks[label + j]? = some n

theorem Stands.first (stands : (seq former latter).Stands m offset marks label slot start) :
    former.Stands m offset marks label slot start := by
  constructor
  · intro j item found
    have inside := (List.getElem?_eq_some_iff.mp found).1
    exact stands.shows ((List.getElem?_append_left inside).trans found)
  · intro j n found
    have inside := (List.getElem?_eq_some_iff.mp found).1
    exact stands.marks ((List.getElem?_append_left inside).trans found)

theorem Stands.second (stands : (seq former latter).Stands m offset marks label slot start) :
    latter.Stands m offset marks (label + former.labelCount) (slot + former.temporaries.length)
      (start + former.effects.length) := by
  constructor
  · intro j item found
    rw [Nat.add_assoc]
    refine stands.shows ?_
    rw [Block.items, List.getElem?_append_right (by simp [items_length]), items_length,
      Nat.add_sub_cancel_left, found]
  · intro j n found
    rw [Nat.add_assoc]
    refine stands.marks ?_
    rw [Block.marks, List.getElem?_append_right (by simp [marks_length]), marks_length,
      Nat.add_sub_cancel_left, found]

/-- The instructions between the sides of a choice. -/
def choiceItems (label : Nat) : List Item :=
  [.plain .dup .none, .branch .ifTrue false ⟨label⟩, .plain .pop .none]

theorem items_orElse (left right : Block) (label slot : Nat) :
    (orElse left right).items label slot =
      left.items (label + 1) slot ++ (choiceItems label ++
        right.items (label + 1 + left.labelCount) (slot + left.temporaries.length)) :=
  List.append_assoc ..

theorem Stands.leftSide (stands : (orElse left right).Stands m offset marks label slot start) :
    left.Stands m offset marks (label + 1) slot start := by
  constructor
  · intro j item found
    have inside := (List.getElem?_eq_some_iff.mp found).1
    refine stands.shows ?_
    rw [items_orElse, List.getElem?_append_left inside, found]
  · intro j n found
    have inside := (List.getElem?_eq_some_iff.mp found).1
    rw [Nat.add_assoc, Nat.add_comm 1]
    refine stands.marks ?_
    rw [Block.marks, List.getElem?_cons_succ, List.getElem?_append_left inside, found]

theorem Stands.rightSide (stands : (orElse left right).Stands m offset marks label slot start) :
    right.Stands m offset marks (label + 1 + left.labelCount) (slot + left.temporaries.length)
      (start + left.effects.length + 3) := by
  constructor
  · intro j item found
    have place : start + left.effects.length + 3 + j = start + (left.effects.length + 3 + j) := by
      omega
    rw [place]
    refine stands.shows ?_
    have before : (left.items (label + 1) slot ++ choiceItems label).length =
        left.effects.length + 3 := by
      simp [items_length, choiceItems]
    rw [items_orElse, ← List.append_assoc, List.getElem?_append_right (by omega), before,
      Nat.add_sub_cancel_left, found]
  · intro j n found
    have place : label + 1 + left.labelCount + j = label + (left.labelCount + j + 1) := by omega
    rw [place]
    refine stands.marks ?_
    rw [Block.marks, List.getElem?_cons_succ, List.getElem?_append_right (by simp [marks_length]),
      marks_length, Nat.add_sub_cancel_left, found]

theorem Stands.test (stands : (orElse left right).Stands m offset marks label slot start) {j : Nat}
    {item : Item} (found : (choiceItems label)[j]? = some item) :
    ∃ i, m.instructions[start + left.effects.length + j]? = some i ∧ item.Shows offset marks i := by
  have inside := (List.getElem?_eq_some_iff.mp found).1
  rw [Nat.add_assoc]
  refine stands.shows ?_
  rw [items_orElse, List.getElem?_append_right (by simp [items_length]), items_length,
    Nat.add_sub_cancel_left, List.getElem?_append_left inside, found]

theorem Stands.done (stands : (orElse left right).Stands m offset marks label slot start) :
    marks[label]? = some (start + left.effects.length + 3 + right.effects.length) :=
  stands.marks (j := 0) rfl

/-- The machine runs the instructions of a block as the block runs. -/
theorem run_leads {items : List Item} (placed : Placed m.instructions items marks offset)
    (stands : b.Stands m offset marks label slot start) (c : Config) :
    m.Leads kinds ⟨offset start, c⟩ (offset (start + b.effects.length)) (b.run kinds c) := by
  induction b generalizing label slot start c with
  | skip => exact fun _ ends => ends
  | fault | call | spill | keeping => exact fun other => absurd rfl other
  | plain op operand =>
    obtain ⟨i, found, shows⟩ := stands.shows (j := 0) rfl
    exact MethodBody.leads_plain placed found shows c
  | seq former latter ihFormer ihLatter =>
    refine (ihFormer stands.first c).bind fun c' _ => ?_
    have latterLeads := ihLatter stands.second c'
    rwa [Nat.add_assoc, ← List.length_append] at latterLeads
  | orElse left right ihLeft ihRight =>
    have whole : start + (orElse left right).effects.length =
        start + left.effects.length + 3 + right.effects.length := by
      simp [effects]
      omega
    obtain ⟨copy, foundCopy, showsCopy⟩ := stands.test (j := 0) rfl
    obtain ⟨jump, foundJump, showsJump⟩ := stands.test (j := 1) rfl
    obtain ⟨drop, foundDrop, showsDrop⟩ := stands.test (j := 2) rfl
    rw [whole]
    refine (ihLeft stands.leftSide c).bind fun c _ => ?_
    refine (MethodBody.leads_plain placed foundCopy showsCopy c).bind fun c _ => ?_
    cases tests : c.test .ifTrue with
    | error trap =>
      exact fun other => absurd (test_undefined tests) other
    | ok result =>
      obtain ⟨taken, c⟩ := result
      have steps := MethodBody.step_branch kinds placed foundJump showsJump stands.done tests
      cases taken with
      | true => exact .of_step steps fun _ ends => ends
      | false =>
        refine .of_step steps ?_
        exact (MethodBody.leads_plain placed foundDrop showsDrop c).bind fun c _ =>
          ihRight stands.rightSide c

end Block

end DebugExpr.Code
