import DebugExpr.Proofs.Blocks

/-! Where the branches of a block go. The only branch is that of a choice: it goes forward to the
end of the right side, and there the depth is the one behind the branch. -/
namespace DebugExpr.Code
open Metadata

theorem net_take_behind (former effects : List Effect) (k : Nat) :
    ((former ++ effects).take (former.length + k)).prod.net =
      former.prod.net + (effects.take k).prod.net := by
  rw [List.take_length_add_append, List.prod_append, Effect.net_mul]

theorem getElem?_append_cases {α : Type} {first second : List α} {k : Nat} {a : α}
    (found : (first ++ second)[k]? = some a) :
    first[k]? = some a ∨ ∃ j, k = first.length + j ∧ second[j]? = some a := by
  rcases Nat.lt_or_ge k first.length with inside | behind
  · exact .inl (by rwa [List.getElem?_append_left inside] at found)
  · exact .inr ⟨k - first.length, by omega, by rwa [List.getElem?_append_right behind] at found⟩

/-- An instruction after which control goes on. -/
def Item.Straight (item : Item) : Prop :=
  ∃ op operand, item = .plain op operand ∧ op.info.flow = .next

theorem Form.Has.straight {f : Form} {effect : Effect} (has : f.Has effect) : f.item.Straight :=
  ⟨f.opcode, f.operand, rfl, has.1.2.1⟩

namespace Block
variable {b : Block} {k j : Nat}

/-- The branch of the one index goes to the other: that of a choice stands behind its left side and
goes to its end. -/
inductive Jumps : Block → Nat → Nat → Prop
  | choice (left right : Block) : Jumps (orElse left right) (left.effects.length + 1)
      (left.effects.length + 3 + right.effects.length)
  | left {left right : Block} {k j : Nat} (inside : Jumps left k j) : Jumps (orElse left right) k j
  | right {left right : Block} {k j : Nat} (inside : Jumps right k j) :
    Jumps (orElse left right) (left.effects.length + 3 + k) (left.effects.length + 3 + j)
  | first {first second : Block} {k j : Nat} (inside : Jumps first k j) :
    Jumps (seq first second) k j
  | second {first second : Block} {k j : Nat} (inside : Jumps second k j) :
    Jumps (seq first second) (first.effects.length + k) (first.effects.length + j)
  | body {type : ClosedType} {body : Block} {k j : Nat} (inside : Jumps body k j) :
    Jumps (keeping type body) (2 + k) (2 + j)

namespace Jumps

theorem later (jumps : b.Jumps k j) : k < j ∧ j ≤ b.effects.length := by
  induction jumps with
  | choice | left | right | first | second | body =>
    simp only [effects, List.length_append, List.length_cons, List.length_nil]
    omega

/-- The depth at the place to which a branch goes is the one behind the branch. -/
theorem level (jumps : b.Jumps k j) (lawful : b.Lawful) :
    (b.effects.take j).prod.net = (b.effects.take (k + 1)).prod.net := by
  induction jumps with
  | choice left right =>
    have level : right.effects.prod.net = 1 := lawful.2.2
    have whole : (orElse left right).effects.length =
        left.effects.length + 3 + right.effects.length := by
      simp only [effects, List.length_append, List.length_cons, List.length_nil]
    rw [← whole, List.take_length, effects, List.append_assoc, Nat.add_assoc, net_take_behind]
    simp [level]
  | left inside ih =>
    obtain ⟨later, bound⟩ := inside.later
    simp only [effects, List.append_assoc]
    rw [List.take_append_of_le_length bound,
      List.take_append_of_le_length (Nat.le_trans later bound)]
    exact ih lawful.1
  | @right left _ k j inside ih =>
    have shift := net_take_behind (left.effects ++ [⟨1, 2⟩, ⟨1, 0⟩, ⟨1, 0⟩])
    simp only [List.length_append, List.length_cons, List.length_nil] at shift
    simp only [effects, shift, Nat.add_assoc _ k, ih lawful.2.1]
  | first inside ih =>
    obtain ⟨later, bound⟩ := inside.later
    rw [effects, List.take_append_of_le_length bound,
      List.take_append_of_le_length (Nat.le_trans later bound)]
    exact ih lawful.1
  | @second first _ k j inside ih =>
    simp only [effects, Nat.add_assoc, net_take_behind, ih lawful.2]
  | @body type body k j inside ih =>
    obtain ⟨later, bound⟩ := inside.later
    have shift := net_take_behind [⟨1, 2⟩, ⟨1, 0⟩]
    simp only [List.length_cons, List.length_nil] at shift
    simp only [effects, List.append_assoc, shift, Nat.add_assoc _ k]
    rw [List.take_append_of_le_length bound,
      List.take_append_of_le_length (Nat.le_trans later bound), ih lawful]

end Jumps

/-- Every instruction of a lawful block lets control go on, or is a branch. The label to which the
branch goes has the place that the structure of the block says. -/
theorem flow_jumps (lawful : b.Lawful) (label slot start : Nat) {item : Item}
    (found : (b.items label slot)[k]? = some item) :
    item.Straight ∨ ∃ m j, item = .branch .ifTrue false ⟨label + m⟩ ∧
      (b.marks start)[m]? = some (start + j) ∧ b.Jumps k j := by
  induction b generalizing label slot start k with
  | skip | fault => simp [items] at found
  | plain op operand =>
    obtain ⟨-, rfl⟩ : k = 0 ∧ Item.plain op operand = item := by
      simpa [items, List.getElem?_singleton] using found
    exact .inl ⟨op, operand, rfl, lawful.2.1⟩
  | call op callee =>
    obtain ⟨-, rfl⟩ : k = 0 ∧ Item.plain op (.member callee.display) = item := by
      simpa [items, List.getElem?_singleton] using found
    refine .inl ⟨op, _, rfl, ?_⟩
    obtain ⟨byCaller, token⟩ := lawful.1
    cases op <;> cases byCaller <;> first | rfl | cases token
  | seq first second ihFirst ihSecond =>
    rcases getElem?_append_cases found with inside | ⟨k, rfl, inside⟩
    · refine (ihFirst lawful.1 label slot start inside).imp_right ?_
      rintro ⟨m, j, rfl, mark, jumps⟩
      have known := (List.getElem?_eq_some_iff.mp mark).1
      exact ⟨m, j, rfl, by rwa [marks, List.getElem?_append_left known], jumps.first⟩
    · refine (ihSecond lawful.2 _ _ (start + first.effects.length) inside).imp_right ?_
      rintro ⟨m, j, rfl, mark, jumps⟩
      refine ⟨first.labelCount + m, first.effects.length + j, by rw [Nat.add_assoc], ?_, ?_⟩
      · rw [marks, ← marks_length first start, List.getElem?_append_right (by omega),
          Nat.add_sub_cancel_left, mark, Nat.add_assoc]
      · rw [items_length]
        exact jumps.second
  | spill type =>
    have member := List.mem_of_getElem? found
    simp only [items, List.mem_cons, List.not_mem_nil, or_false] at member
    obtain rfl | rfl := member
    · exact .inl (Form.storeLocal_has slot).straight
    · exact .inl (Form.loadLocalAddress_has slot).straight
  | keeping type body ih =>
    rcases getElem?_append_cases found with inside | ⟨k, rfl, last⟩
    · rcases getElem?_append_cases inside with first | ⟨k, rfl, bodyItem⟩
      · have member := List.mem_of_getElem? first
        simp only [List.mem_cons, List.not_mem_nil, or_false] at member
        obtain rfl | rfl := member
        · exact .inl dup_has.straight
        · exact .inl (Form.storeLocal_has slot).straight
      · refine (ih lawful label (slot + 1) (start + 2) bodyItem).imp_right ?_
        rintro ⟨m, j, rfl, mark, jumps⟩
        exact ⟨m, 2 + j, rfl, by rw [marks, mark, Nat.add_assoc], jumps.body⟩
    · have member := List.mem_of_getElem? last
      simp only [List.mem_cons, List.not_mem_nil, or_false] at member
      subst member
      exact .inl (Form.loadLocal_has slot).straight
  | orElse left right ihLeft ihRight =>
    rcases getElem?_append_cases found with inside | ⟨k, rfl, rightItem⟩
    · rcases getElem?_append_cases inside with leftItem | ⟨k, rfl, testItem⟩
      · refine (ihLeft lawful.1 (label + 1) slot start leftItem).imp_right ?_
        rintro ⟨m, j, rfl, mark, jumps⟩
        have known := (List.getElem?_eq_some_iff.mp mark).1
        refine ⟨m + 1, j, by rw [Nat.add_assoc, Nat.add_comm 1], ?_, jumps.left⟩
        rw [marks, List.getElem?_cons_succ, List.getElem?_append_left known, mark]
      · rw [items_length]
        rcases k with _ | _ | _ | k
        · obtain rfl : _ = item := by simpa using testItem
          exact .inl dup_has.straight
        · obtain rfl : _ = item := by simpa using testItem
          refine .inr ⟨0, _, rfl, ?_, .choice left right⟩
          simp only [marks, List.getElem?_cons_zero, Nat.add_assoc]
        · obtain rfl : _ = item := by simpa using testItem
          exact .inl pop_has.straight
        · simp at testItem
    · refine (ihRight lawful.2.1 _ _ (start + left.effects.length + 3) rightItem).imp_right ?_
      rintro ⟨m, j, rfl, mark, jumps⟩
      refine ⟨left.labelCount + m + 1, left.effects.length + 3 + j, by congr 2; omega, ?_, ?_⟩
      · rw [marks, List.getElem?_cons_succ, ← marks_length left start,
          List.getElem?_append_right (by omega), Nat.add_sub_cancel_left, mark]
        congr 1
        omega
      · simpa [items_length] using jumps.right

end Block

end DebugExpr.Code
