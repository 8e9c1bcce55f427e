import Mathlib.Algebra.Ring.Nat
import DebugExpr.Code.Layout

/-! Where the layout puts instructions. Widening changes no more than the form of a branch, so the
instructions stand in their order, each where the one before ends, and a branch names the offset at
which the instruction behind its label stands. -/
namespace DebugExpr.Code
open Metadata

theorem Opcode.size_pos (op : Opcode) : 0 < op.size := by
  unfold Opcode.size
  split <;> omega

/-- The instruction with every branch in its short form. -/
def Item.narrow : Item → Item
  | .branch condition _ target => .branch condition false target
  | item => item

theorem narrow_widenItem (targets : Targets) (layout : Array Nat) (item : Item) (next : Nat) :
    (widenItem targets layout item next).narrow = item.narrow := by
  rcases item with _ | ⟨condition, wide, target⟩
  · rfl
  · cases wide <;> rfl

theorem narrow_widenPass (targets : Targets) (items : List Item) :
    (widenPass targets items).map Item.narrow = items.map Item.narrow := by
  apply List.ext_getElem?
  intro i
  cases found : items[i]? <;> simp [widenPass, found, narrow_widenItem]

theorem narrow_settle (targets : Targets) (items : List Item) :
    (settle targets items).map Item.narrow = items.map Item.narrow := by
  fun_induction settle targets items with
  | case1 items next fewer ih => rw [ih, narrow_widenPass]
  | case2 => rfl

/-- The offset at which the instruction of an index stands. -/
def offsetOf (items : List Item) (index : Nat) : Nat :=
  (offsets items).getD index 0

theorem offsetsFrom_getElem? (start : Nat) (items : List Item) (index : Nat) :
    (offsetsFrom start items)[index]? =
      if index ≤ items.length then
        some (start + ((items.take index).map (·.opcode.size)).sum)
      else none := by
  induction items generalizing start index with
  | nil => cases index <;> simp [offsetsFrom]
  | cons item rest ih => cases index <;> simp [offsetsFrom, ih, Nat.add_assoc]

theorem offsetOf_eq {items : List Item} {index : Nat} (bound : index ≤ items.length) :
    offsetOf items index = ((items.take index).map (·.opcode.size)).sum := by
  simp [offsetOf, offsets, offsetsFrom_getElem?, bound]

theorem offsetOf_zero (items : List Item) : offsetOf items 0 = 0 :=
  offsetOf_eq (Nat.zero_le _)

theorem offsetOf_succ {items : List Item} {index : Nat} {item : Item}
    (found : items[index]? = some item) :
    offsetOf items (index + 1) = offsetOf items index + item.opcode.size := by
  obtain ⟨bound, -⟩ := List.getElem?_eq_some_iff.mp found
  rw [offsetOf_eq bound, offsetOf_eq (Nat.le_of_lt bound), List.take_add_one, found]
  simp

theorem offsetOf_lt {items : List Item} {index later : Nat} (before : index < later)
    (bound : later ≤ items.length) : offsetOf items index < offsetOf items later := by
  induction later with
  | zero => omega
  | succ later ih =>
    obtain ⟨item, found⟩ : ∃ item, items[later]? = some item := ⟨_, List.getElem?_eq_getElem bound⟩
    have step := offsetOf_succ found
    have positive := item.opcode.size_pos
    rcases Nat.lt_succ_iff_lt_or_eq.mp before with before | rfl
    · have := ih before (Nat.le_of_lt bound)
      omega
    · omega

/-- An instruction shows an item: a branch in either form, and its target by offset. -/
def Item.Shows (offset : Nat → Nat) (marks : List Nat) : Item → Instruction → Prop
  | .plain op operand, i => i.opcode = op ∧ i.operand = operand
  | .branch condition _ label, i =>
    (i.opcode = condition.short ∨ i.opcode = condition.long) ∧
      i.operand = .target (offset (marks.getD label.id 0))

/-- The instructions are the items in order, each at the offset where the one before ends. -/
structure Placed (instructions : List Instruction) (items : List Item) (marks : List Nat)
    (offset : Nat → Nat) : Prop where
  length : instructions.length = items.length
  first : offset 0 = 0
  increasing : ∀ i j, i < j → j ≤ items.length → offset i < offset j
  place : ∀ {k : Nat} {i : Instruction}, instructions[k]? = some i →
    i.offset = offset k ∧ offset (k + 1) = offset k + i.opcode.size
  shows : ∀ {k : Nat} {i : Instruction} {item : Item}, instructions[k]? = some i →
    items[k]? = some item → item.Shows offset marks i

/-- Different indices have different offsets. -/
theorem Placed.injective {instructions : List Instruction} {items : List Item} {marks : List Nat}
    {offset : Nat → Nat} (placed : Placed instructions items marks offset) {k k' : Nat}
    (bound : k ≤ items.length) (bound' : k' ≤ items.length) (same : offset k = offset k') :
    k = k' := by
  rcases Nat.lt_trichotomy k k' with before | rfl | behind
  · have := placed.increasing k k' before bound'
    omega
  · rfl
  · have := placed.increasing k' k behind bound
    omega

/-- What the instructions yield in order is what the items yield. -/
theorem Placed.filterMap_eq {α : Type} {instructions : List Instruction} {items : List Item}
    {marks : List Nat} {offset : Nat → Nat} {f : Instruction → Option α} {g : Item → Option α}
    (placed : Placed instructions items marks offset)
    (same : ∀ {item : Item} {i : Instruction}, item.Shows offset marks i → f i = g item) :
    instructions.filterMap f = items.filterMap g := by
  have pointwise : instructions.map f = items.map g := by
    apply List.ext_getElem (by simp [placed.length])
    intro k inside inside'
    simp only [List.length_map] at inside inside'
    simp only [List.getElem_map]
    exact same (placed.shows (List.getElem?_eq_getElem inside) (List.getElem?_eq_getElem inside'))
  simpa only [List.filterMap_map, Function.id_comp] using congrArg (List.filterMap id) pointwise

theorem mapIdxM_go_placed (f : Nat → Option Nat → Except Fault Nat)
    (placed : ∀ i index, f i (some index) = .ok index) (marks : List Nat) (before : Array Nat) :
    List.mapIdxM.go f (marks.map some) before = .ok (before.toList ++ marks) := by
  induction marks generalizing before with
  | nil => simp [List.mapIdxM.go, pure, Except.pure]
  | cons mark rest ih =>
    simp only [List.map_cons, List.mapIdxM.go, placed]
    exact (ih _).trans (by simp)

theorem targets_eq {e : Encoder} {marks : List Nat} (labels : e.labels.toList = marks.map some) :
    e.targets = .ok marks.toArray := by
  unfold Encoder.targets List.mapIdxM
  rw [labels, mapIdxM_go_placed _ (fun _ _ => rfl)]
  rfl

theorem settle_getElem? (targets : Targets) {items : List Item} {k : Nat} {item : Item}
    (found : items[k]? = some item) :
    ∃ settled, (settle targets items)[k]? = some settled ∧ settled.narrow = item.narrow := by
  have same := congrArg (·[k]?) (narrow_settle targets items)
  simpa [found] using same

theorem settle_length (targets : Targets) (items : List Item) :
    (settle targets items).length = items.length := by
  simpa using congrArg List.length (narrow_settle targets items)

theorem shows_of_narrow {settled item : Item} {layout : Array Nat} {marks : List Nat}
    {offset : Nat → Nat} {start : Nat} (same : settled.narrow = item.narrow)
    (laid : ∀ k, layout.getD k 0 = offset k) :
    item.Shows offset marks (placeItem marks.toArray layout settled start) := by
  rcases settled with _ | ⟨condition, wide, label⟩ <;>
    rcases item with _ | ⟨condition', wide', label'⟩ <;>
    simp only [Item.narrow, Item.plain.injEq, Item.branch.injEq, true_and, reduceCtorEq] at same
  · obtain ⟨rfl, rfl⟩ := same
    exact ⟨rfl, rfl⟩
  · obtain ⟨rfl, rfl⟩ := same
    refine ⟨?_, ?_⟩
    · cases wide <;> simp [placeItem, Item.opcode]
    · simp [placeItem, targetOffset, ← laid]

/-- An encoder whose labels are all placed is laid out. -/
theorem finish_placed {e : Encoder} {marks : List Nat} (labels : e.labels.toList = marks.map some)
    (returnType : Option ClosedType) :
    ∃ m offset, e.finish returnType = .ok m ∧ Placed m.instructions e.items.toList marks offset ∧
      m.maxStack = e.maxDepth ∧ m.locals = e.locals.toList ∧ m.returnType = returnType ∧
      m.codeSize = offset e.items.size := by
  have count := settle_length marks.toArray e.items.toList
  refine ⟨_, offsetOf (settle marks.toArray e.items.toList),
    by rw [Encoder.finish, targets_eq labels]; rfl, ?_, rfl, rfl, rfl, ?_⟩
  · constructor
    · simp [count]
    · exact offsetOf_zero _
    · exact fun i j before bound => offsetOf_lt before (by rwa [count])
    · intro k i found
      simp only [List.getElem?_mapIdx, Option.map_eq_some_iff] at found
      obtain ⟨settled, found, rfl⟩ := found
      exact ⟨rfl, offsetOf_succ found⟩
    · intro k i item found shown
      obtain ⟨settled, placed, same⟩ := settle_getElem? marks.toArray shown
      simp only [List.getElem?_mapIdx, placed, Option.map_some, Option.some.injEq] at found
      subst found
      exact shows_of_narrow same fun _ => rfl
  · simp [offsetOf, count]

end DebugExpr.Code
