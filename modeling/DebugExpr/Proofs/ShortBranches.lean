import Mathlib.Data.Bool.Basic
import Mathlib.Data.List.Forall2
import Mathlib.Data.List.Induction
import Mathlib.Order.Bounds.Defs
import DebugExpr.Proofs.Placement
import DebugExpr.Proofs.Sessions

/-! Forms of the branches. An assignment of long forms fits if every short branch reaches its
target. With fewer long forms no distance grows, so the passes of the layout, which begin with short
forms only, stay below every assignment that fits; and where they end every short branch fits. The
layout is the least assignment that fits. -/
namespace DebugExpr.Code
open Metadata

/-- One item is another, or the short form of it. -/
def Item.Below (short long : Item) : Prop :=
  short.narrow = long.narrow ∧ (isNarrow long = true → isNarrow short = true)

/-- The items are the others with some of the long branches made short. -/
def Below : List Item → List Item → Prop :=
  List.Forall₂ Item.Below

theorem Condition.size_le (condition : Condition) :
    condition.short.size ≤ condition.long.size := by
  cases condition <;> decide

theorem Item.Below.size_le {short long : Item} (below : short.Below long) :
    short.opcode.size ≤ long.opcode.size := by
  obtain ⟨same, narrow⟩ := below
  rcases short with _ | ⟨condition, wide, label⟩ <;>
    rcases long with _ | ⟨condition', wide', label'⟩ <;>
    simp only [Item.narrow, Item.plain.injEq, Item.branch.injEq, true_and, reduceCtorEq] at same
  · obtain ⟨rfl, rfl⟩ := same
    exact Nat.le_refl _
  · obtain ⟨rfl, rfl⟩ := same
    cases wide with
    | false =>
      cases wide' with
      | false => exact Nat.le_refl _
      | true => exact condition.size_le
    | true =>
      cases wide' with
      | false => simp [isNarrow] at narrow
      | true => exact Nat.le_refl _

theorem Below.getElem? {shorter longer : List Item} (below : Below shorter longer) {k : Nat}
    {short long : Item} (found : shorter[k]? = some short) (found' : longer[k]? = some long) :
    short.Below long := by
  obtain ⟨bound, rfl⟩ := List.getElem?_eq_some_iff.mp found
  obtain ⟨bound', rfl⟩ := List.getElem?_eq_some_iff.mp found'
  exact below.get bound bound'

theorem below_of_getElem? {shorter longer : List Item} (length : shorter.length = longer.length)
    (items : ∀ (k : Nat) (short long : Item), shorter[k]? = some short → longer[k]? = some long →
      short.Below long) :
    Below shorter longer :=
  List.forall₂_iff_get.mpr ⟨length, fun k inside inside' =>
    items k _ _ (List.getElem?_eq_getElem inside) (List.getElem?_eq_getElem inside')⟩

/-- Between two instructions there are no more bytes than with more long branches. -/
theorem gap_le {shorter longer : List Item} (below : Below shorter longer) {i j : Nat}
    (before : i ≤ j) (bound : j ≤ shorter.length) :
    offsetOf shorter j + offsetOf longer i ≤ offsetOf longer j + offsetOf shorter i := by
  induction j with
  | zero =>
    obtain rfl : i = 0 := Nat.le_zero.mp before
    omega
  | succ j ih =>
    obtain rfl | before := Nat.eq_or_lt_of_le before
    · omega
    · have bound' : j < longer.length := below.length_eq ▸ bound
      have found := List.getElem?_eq_getElem bound
      have found' := List.getElem?_eq_getElem bound'
      have step := (below.getElem? found found').size_le
      have rest := ih (Nat.le_of_lt_succ before) (Nat.le_of_lt bound)
      rw [offsetOf_succ found, offsetOf_succ found']
      omega

theorem offsetOf_le {items : List Item} {index later : Nat} (before : index ≤ later)
    (bound : later ≤ items.length) : offsetOf items index ≤ offsetOf items later := by
  obtain rfl | before := Nat.eq_or_lt_of_le before
  · exact Nat.le_refl _
  · exact Nat.le_of_lt (offsetOf_lt before bound)

/-- From the end of a branch to its target. -/
def displacement (items : List Item) (k target : Nat) : Int :=
  (offsetOf items target : Int) - offsetOf items (k + 1)

theorem fitsByte_iff {displacement : Int} :
    fitsByte displacement = true ↔ -128 ≤ displacement ∧ displacement ≤ 127 := by
  simp [fitsByte]

theorem fitsByte_of_below {shorter longer : List Item} (below : Below shorter longer)
    {k target : Nat} (inside : k < shorter.length) (bound : target ≤ shorter.length)
    (fits : fitsByte (displacement longer k target) = true) :
    fitsByte (displacement shorter k target) = true := by
  rw [fitsByte_iff] at *
  unfold displacement at *
  rcases Nat.le_total target (k + 1) with backward | forward
  · have gap := gap_le below backward inside
    have order := offsetOf_le backward inside
    omega
  · have gap := gap_le below forward bound
    have order := offsetOf_le forward bound
    omega

/-- Every short branch reaches its target. -/
def AllFit (targets : Targets) (items : List Item) : Prop :=
  ∀ k condition label, items[k]? = some (.branch condition false label) →
    fitsByte (displacement items k (targets.getD label.id 0)) = true

/-- Every branch goes to an instruction or to the end. -/
def Bounded (targets : Targets) (items : List Item) : Prop :=
  ∀ condition wide label, .branch condition wide label ∈ items →
    targets.getD label.id 0 ≤ items.length

theorem widenPass_getElem? (targets : Targets) (items : List Item) (k : Nat) :
    (widenPass targets items)[k]? = items[k]?.map fun item =>
      widenItem targets (offsets items) item (offsetOf items (k + 1)) := by
  simp [widenPass, offsetOf]

theorem widenPass_length (targets : Targets) (items : List Item) :
    (widenPass targets items).length = items.length := by
  simp [widenPass]

/-- A pass widens a branch just when it does not reach its target. -/
theorem widenItem_branch (targets : Targets) (items : List Item) (k : Nat) (condition : Condition)
    (label : Label) :
    widenItem targets (offsets items) (.branch condition false label) (offsetOf items (k + 1)) =
      .branch condition (!fitsByte (displacement items k (targets.getD label.id 0))) label :=
  rfl

/-- A pass stays below every assignment that fits. -/
theorem widenPass_below {targets : Targets} {items bound : List Item} (below : Below items bound)
    (bounded : Bounded targets items) (fits : AllFit targets bound) :
    Below (widenPass targets items) bound := by
  refine below_of_getElem? ((widenPass_length ..).trans below.length_eq) fun k widened long found
    found' => ?_
  rw [widenPass_getElem?, Option.map_eq_some_iff] at found
  obtain ⟨item, found, rfl⟩ := found
  have itemBelow := below.getElem? found found'
  rcases item with _ | ⟨condition, _ | _, label⟩
  · exact itemBelow
  · rw [widenItem_branch]
    refine ⟨itemBelow.1, fun narrow => ?_⟩
    obtain rfl : long = .branch condition false label := by
      rcases long with _ | ⟨condition', _ | _, label'⟩
      · simp [isNarrow] at narrow
      · exact itemBelow.1.symm
      · simp [isNarrow] at narrow
    have inside := (List.getElem?_eq_some_iff.mp found).1
    have reaches := fitsByte_of_below below inside (bounded _ _ _ (List.mem_of_getElem? found))
      (fits k condition label found')
    rw [reaches]
    rfl
  · exact itemBelow

theorem bounded_widenPass {targets : Targets} {items : List Item}
    (bounded : Bounded targets items) : Bounded targets (widenPass targets items) := by
  intro condition wide label member
  obtain ⟨k, found⟩ := List.mem_iff_getElem?.mp member
  rw [widenPass_getElem?, Option.map_eq_some_iff] at found
  obtain ⟨item, found, widened⟩ := found
  rw [widenPass_length]
  rcases item with _ | ⟨condition', wide', label'⟩
  · cases widened
  · obtain rfl : label' = label := by
      cases wide' <;> injection widened
    exact bounded _ _ _ (List.mem_of_getElem? found)

/-- The layout stays below every assignment that fits. -/
theorem settle_below {targets : Targets} {items bound : List Item} (below : Below items bound)
    (bounded : Bounded targets items) (fits : AllFit targets bound) :
    Below (settle targets items) bound := by
  fun_induction settle targets items with
  | case1 items next fewer ih =>
    exact ih (widenPass_below below bounded fits) (bounded_widenPass bounded)
  | case2 => exact below

section Count
variable {α : Type} {p : α → Bool} {f : Nat → α → α} {l : List α}

theorem countP_mapIdx_le (keeps : ∀ k a, p (f k a) = true → p a = true) :
    (l.mapIdx f).countP p ≤ l.countP p := by
  induction l generalizing f with
  | nil => exact Nat.le_refl _
  | cons a l ih =>
    have rest := ih (f := fun k => f (k + 1)) fun k => keeps (k + 1)
    have head : (if p (f 0 a) = true then 1 else 0) ≤ if p a = true then 1 else 0 := by
      by_cases kept : p (f 0 a) = true
      · simp [kept, keeps 0 a kept]
      · simp [kept]
    rw [List.mapIdx_cons, List.countP_cons, List.countP_cons]
    exact Nat.add_le_add rest head

theorem countP_mapIdx_lt (keeps : ∀ k a, p (f k a) = true → p a = true) {k : Nat} {a : α}
    (found : l[k]? = some a) (holds : p a = true) (lost : p (f k a) = false) :
    (l.mapIdx f).countP p < l.countP p := by
  induction l generalizing f k with
  | nil => simp at found
  | cons b l ih =>
    rw [List.mapIdx_cons]
    cases k with
    | zero =>
      obtain rfl : b = a := by simpa using found
      rw [List.countP_cons_of_pos holds, List.countP_cons_of_neg (by simp [lost])]
      exact Nat.lt_succ_of_le (countP_mapIdx_le fun k => keeps (k + 1))
    | succ k =>
      have rest := ih (f := fun k => f (k + 1)) (fun k => keeps (k + 1)) found lost
      by_cases kept : p (f 0 b) = true
      · rw [List.countP_cons_of_pos kept, List.countP_cons_of_pos (keeps 0 b kept)]
        exact Nat.succ_lt_succ rest
      · rw [List.countP_cons_of_neg kept, List.countP_cons]
        exact Nat.lt_add_right _ rest

end Count

/-- Where the layout ends every short branch fits. -/
theorem settle_fits (targets : Targets) (items : List Item) :
    AllFit targets (settle targets items) := by
  fun_induction settle targets items with
  | case1 items next fewer ih => exact ih
  | case2 items next settled =>
    intro k condition label found
    by_contra misses
    refine settled (countP_mapIdx_lt ?_ found rfl ?_)
    · rintro k (_ | ⟨condition, _ | _, label⟩) narrow <;> first | rfl | exact narrow
    · change isNarrow (widenItem targets (offsets items) _ (offsetOf items (k + 1))) = false
      rw [widenItem_branch]
      rw [Bool.eq_false_iff.mpr misses]
      rfl

/-- The label is placed before the instruction of the index: there are as many instructions when the
request to place it is met. -/
def PlacedAt (start : Encoder) (calls : List Call) (label : Label) (index : Nat) : Prop :=
  ∃ before after, calls = before ++ .placeLabel label :: after ∧
    (start.serve before).labels[label.id]? = some none ∧ (start.serve before).items.size = index

theorem PlacedAt.append {start : Encoder} {calls : List Call} {label : Label} {index : Nat}
    (placed : PlacedAt start calls label index) (more : List Call) :
    PlacedAt start (calls ++ more) label index := by
  obtain ⟨before, after, rfl, fresh, count⟩ := placed
  exact ⟨before, after ++ more, by simp, fresh, count⟩

/-- The state of the instructions and labels behind requests of any kind, met or not. -/
structure Labelled (start : Encoder) (calls : List Call) (e : Encoder) : Prop where
  branches : ∀ {k : Nat} {condition : Condition} {wide : Bool} {label : Label},
    e.items[k]? = some (.branch condition wide label) → wide = false ∧ label.id < e.labels.size
  places : ∀ {label : Label} {index : Nat}, e.labels[label.id]? = some (some index) →
    index ≤ e.items.size ∧ PlacedAt start calls label index

theorem labelled_start (locals : List ClosedType) :
    Labelled (.ofLocals locals) [] (.ofLocals locals) :=
  ⟨by simp [Encoder.ofLocals], by simp [Encoder.ofLocals]⟩

namespace Labelled
variable {start e e' : Encoder} {calls : List Call} {c : Call}

/-- A request that keeps the labels and adds at most one instruction keeps the state. -/
theorem push (state : Labelled start calls e) {item : Item}
    (fits : ∀ condition wide label, item = .branch condition wide label →
      wide = false ∧ label.id < e.labels.size)
    (items : e'.items = e.items.push item) (labels : e'.labels = e.labels) :
    Labelled start (calls ++ [c]) e' where
  branches {k condition wide label} found := by
    rw [labels]
    rw [items, Array.getElem?_push] at found
    split at found
    · exact fits _ _ _ (Option.some.inj found)
    · exact state.branches found
  places {label index} placed := by
    rw [labels] at placed
    obtain ⟨bound, placedAt⟩ := state.places placed
    rw [items, Array.size_push]
    exact ⟨Nat.le_succ_of_le bound, placedAt.append [c]⟩

/-- A request that adds no instruction keeps the state if its labels are accounted for. -/
theorem relabel (state : Labelled start calls e) (items : e'.items = e.items)
    (grows : e.labels.size ≤ e'.labels.size)
    (places : ∀ {label : Label} {index : Nat}, e'.labels[label.id]? = some (some index) →
      e.labels[label.id]? = some (some index) ∨
        index = e.items.size ∧ PlacedAt start (calls ++ [c]) label index) :
    Labelled start (calls ++ [c]) e' where
  branches {k condition wide label} found := by
    rw [items] at found
    exact (state.branches found).imp_right fun known => Nat.lt_of_lt_of_le known grows
  places {label index} placed := by
    rw [items]
    obtain older | ⟨rfl, placedAt⟩ := places placed
    · exact (state.places older).imp_right fun placedAt => placedAt.append [c]
    · exact ⟨Nat.le_refl _, placedAt⟩

theorem next (state : Labelled start calls (start.serve calls)) (c : Call) :
    Labelled start (calls ++ [c]) (start.serve (calls ++ [c])) := by
  rw [Encoder.serve_append, Encoder.serve_cons, Encoder.serve_nil]
  generalize reached : start.serve calls = e at state
  have writes := c.writes e
  generalize c.next e = e', (Encode.result c.perform e).1 = answer at writes
  cases writes with
  | refused fault => exact state.relabel rfl (Nat.le_refl _) .inl
  | plain _ _ items labels _ => exact state.push (by simp) items labels
  | ret items labels _ _ => exact state.push (by simp) items labels
  | branch _ known items labels _ =>
    refine state.push ?_ items labels
    rintro _ _ _ ⟨⟩
    exact ⟨rfl, known⟩
  | newLabel =>
    refine state.relabel rfl (by simp) fun {label index} placed => .inl ?_
    rw [Array.getElem?_push] at placed
    split at placed
    · cases placed
    · exact placed
  | @placeLabel placedLabel _ _ fresh items labels _ =>
    refine state.relabel items (by simp [labels]) fun {label index} placed => ?_
    rw [labels, Array.getElem?_setIfInBounds] at placed
    split at placed
    · next same =>
      obtain rfl : placedLabel = label := Label.mk.injEq .. |>.mpr same
      subst reached
      have known := (Array.getElem?_eq_some_iff.mp fresh).1
      obtain rfl : (start.serve calls).items.size = index := by simpa [known] using placed
      exact .inr ⟨rfl, calls, [], rfl, fresh, rfl⟩
    · exact .inl placed
  | newLocal type => exact state.relabel rfl (Nat.le_refl _) .inl

end Labelled

theorem labelled_serve (locals : List ClosedType) (calls : List Call) :
    Labelled (.ofLocals locals) calls ((Encoder.ofLocals locals).serve calls) := by
  induction calls using List.reverseRecOn with
  | nil => exact labelled_start locals
  | append_singleton before c ih => exact ih.next c

/-- Bytes of the instructions. -/
def bytes (opcodes : List Opcode) : Nat :=
  (opcodes.map Opcode.size).sum

/-- The item, and if it is a branch, in the form given. -/
def Item.inForm (long : Bool) : Item → Item
  | .branch condition _ target => .branch condition long target
  | item => item

/-- The items with the branches in the forms assigned to them. -/
def withForms (long : Nat → Bool) (items : List Item) : List Item :=
  items.mapIdx fun k item => item.inForm (long k)

namespace Encoder

/-- The instructions with the branches in the forms assigned to them. -/
def opcodes (e : Encoder) (long : Nat → Bool) : List Opcode :=
  (withForms long e.items.toList).map Item.opcode

/-- From the end of an instruction to the start of another, with the long forms assigned. -/
def distance (e : Encoder) (long : Nat → Bool) (k target : Nat) : Int :=
  (bytes ((e.opcodes long).take target) : Int) - bytes ((e.opcodes long).take (k + 1))

/-- With the long forms assigned, every short branch has a displacement of one signed byte. -/
def Fits (e : Encoder) (long : Nat → Bool) : Prop :=
  ∀ k condition wide label target, e.items[k]? = some (.branch condition wide label) →
    e.labels[label.id]? = some (some target) → long k = false →
    -128 ≤ e.distance long k target ∧ e.distance long k target ≤ 127

end Encoder

/-- The method is the encoder's, with the long forms assigned. -/
structure LaidOut (start : Encoder) (calls : List Call) (long : Nat → Bool) (m : MethodBody) :
    Prop where
  opcodes : m.instructions.map (·.opcode) = (start.serve calls).opcodes long
  offset : ∀ {k : Nat} {i : Instruction}, m.instructions[k]? = some i →
    i.offset = bytes ((m.instructions.take k).map (·.opcode))
  codeSize : m.codeSize = bytes (m.instructions.map (·.opcode))
  operand : ∀ {k : Nat} {op : Opcode} {operand : Operand},
    (start.serve calls).items[k]? = some (.plain op operand) →
    ∃ i, m.instructions[k]? = some i ∧ i.operand = operand
  target : ∀ {k : Nat} {condition : Condition} {wide : Bool} {label : Label},
    (start.serve calls).items[k]? = some (.branch condition wide label) →
    ∃ i index, m.instructions[k]? = some i ∧ PlacedAt start calls label index ∧
      (start.serve calls).labels[label.id]? = some (some index) ∧
      i.operand = .target (bytes ((m.instructions.take index).map (·.opcode)))

theorem offsetOf_eq_bytes {items : List Item} {k : Nat} (bound : k ≤ items.length) :
    offsetOf items k = bytes ((items.map Item.opcode).take k) := by
  rw [offsetOf_eq bound, bytes, ← List.map_take, List.map_map]
  rfl

theorem withForms_length (long : Nat → Bool) (items : List Item) :
    (withForms long items).length = items.length := by
  simp [withForms]

theorem withForms_getElem? (long : Nat → Bool) (items : List Item) (k : Nat) :
    (withForms long items)[k]? = items[k]?.map fun item => item.inForm (long k) := by
  simp [withForms]

/-- The forms that the branches have. -/
def longForms (items : List Item) (k : Nat) : Bool :=
  match items[k]? with
  | some (.branch _ wide _) => wide
  | _ => false

theorem inForm_of_narrow {settled item : Item} (same : settled.narrow = item.narrow) (k : Nat)
    {items : List Item} (found : items[k]? = some settled) :
    item.inForm (longForms items k) = settled := by
  rcases settled with _ | ⟨condition, wide, label⟩ <;>
    rcases item with _ | ⟨condition', wide', label'⟩ <;>
    simp only [Item.narrow, Item.plain.injEq, Item.branch.injEq, true_and, reduceCtorEq] at same
  · obtain ⟨rfl, rfl⟩ := same
    rfl
  · obtain ⟨rfl, rfl⟩ := same
    simp [Item.inForm, longForms, found]

/-- The layout is the items with its long forms. -/
theorem settle_eq_withForms (targets : Targets) (items : List Item) :
    withForms (longForms (settle targets items)) items = settle targets items := by
  apply List.ext_getElem?
  intro k
  rw [withForms_getElem?]
  cases found : items[k]? with
  | none =>
    have outside := settle_length targets items ▸ List.getElem?_eq_none_iff.mp found
    exact (List.getElem?_eq_none outside).symm
  | some item =>
    obtain ⟨settled, placed, same⟩ := settle_getElem? targets found
    rw [placed, Option.map_some, inForm_of_narrow same k placed]

/-- Short branches only are below every assignment. -/
theorem below_withForms {items : List Item}
    (short : ∀ condition wide label, .branch condition wide label ∈ items → wide = false)
    (long : Nat → Bool) : Below items (withForms long items) := by
  refine below_of_getElem? (withForms_length ..).symm fun k item item' found found' => ?_
  rw [withForms_getElem?, found, Option.map_some, Option.some.injEq] at found'
  subst found'
  rcases item with _ | ⟨condition, wide, label⟩
  · exact ⟨rfl, id⟩
  · obtain rfl := short _ _ _ (List.mem_of_getElem? found)
    exact ⟨rfl, fun _ => rfl⟩

theorem longForms_mono {shorter longer : List Item} (below : Below shorter longer) :
    longForms shorter ≤ longForms longer := by
  intro k
  rw [Bool.le_iff_imp]
  intro wide
  unfold longForms at wide
  split at wide
  · next condition wide' label found =>
    subst wide
    have inside := below.length_eq ▸ (List.getElem?_eq_some_iff.mp found).1
    have found' := List.getElem?_eq_getElem inside
    obtain ⟨same, narrow⟩ := below.getElem? found found'
    unfold longForms
    generalize longer[k] = item at *
    rcases item with _ | ⟨condition', _ | _, label'⟩
    · cases same
    · cases narrow rfl
    · rw [found']
  · cases wide

theorem longForms_withForms_le (long : Nat → Bool) (items : List Item) :
    longForms (withForms long items) ≤ long := by
  intro k
  unfold longForms
  rw [withForms_getElem?]
  rcases items[k]? with _ | _ | ⟨condition, wide, label⟩
  · exact Bool.false_le _
  · exact Bool.false_le _
  · exact le_refl (long k)

theorem inForm_eq_short {item : Item} {long : Bool} {condition : Condition} {label : Label} :
    item.inForm long = .branch condition false label ↔
      ∃ wide, item = .branch condition wide label ∧ long = false := by
  rcases item with _ | ⟨condition', wide, label'⟩
  · simp [Item.inForm]
  · simp only [Item.inForm, Item.branch.injEq]
    constructor
    · rintro ⟨rfl, rfl, rfl⟩
      exact ⟨wide, ⟨rfl, rfl, rfl⟩, rfl⟩
    · rintro ⟨wide', ⟨rfl, -, rfl⟩, rfl⟩
      exact ⟨rfl, rfl, rfl⟩

theorem exists_marks {labels : List (Option Nat)} (placed : ∀ index ∈ labels, index ≠ none) :
    ∃ marks : List Nat, labels = marks.map some := by
  induction labels with
  | nil => exact ⟨[], rfl⟩
  | cons index rest ih =>
    rw [List.forall_mem_cons] at placed
    obtain ⟨mark, rfl⟩ := Option.ne_none_iff_exists'.mp placed.1
    obtain ⟨marks, rfl⟩ := ih placed.2
    exact ⟨mark :: marks, rfl⟩

namespace Labelled
variable {start e : Encoder} {calls : List Call} {marks : List Nat} {long : Nat → Bool} {k : Nat}
  {condition : Condition} {wide : Bool} {label : Label}

/-- A branch goes where its label is placed. -/
theorem target (state : Labelled start calls e) (labels : e.labels.toList = marks.map some)
    (found : e.items[k]? = some (.branch condition wide label)) :
    e.labels[label.id]? = some (some (marks.toArray.getD label.id 0)) ∧
      marks.toArray.getD label.id 0 ≤ e.items.size := by
  have known : label.id < e.labels.toList.length := (state.branches found).2
  rw [labels, List.length_map] at known
  have placed : e.labels[label.id]? = some (some (marks.toArray.getD label.id 0)) := by
    rw [← Array.getElem?_toList, labels]
    simp [known]
  exact ⟨placed, (state.places placed).1⟩

theorem short (state : Labelled start calls e)
    (member : .branch condition wide label ∈ e.items.toList) : wide = false := by
  obtain ⟨k, found⟩ := List.mem_iff_getElem?.mp member
  exact (state.branches (Array.getElem?_toList ▸ found)).1

theorem bounded (state : Labelled start calls e) (labels : e.labels.toList = marks.map some) :
    Bounded marks.toArray e.items.toList := by
  intro condition wide label member
  obtain ⟨k, found⟩ := List.mem_iff_getElem?.mp member
  exact (state.target labels (Array.getElem?_toList ▸ found)).2

theorem displacement_eq (long : Nat → Bool) {target : Nat} (inside : k < e.items.size)
    (bound : target ≤ e.items.size) :
    displacement (withForms long e.items.toList) k target = e.distance long k target := by
  have length : (withForms long e.items.toList).length = e.items.size := withForms_length ..
  unfold displacement Encoder.distance Encoder.opcodes
  rw [offsetOf_eq_bytes (length ▸ bound), offsetOf_eq_bytes (length ▸ Nat.succ_le_of_lt inside)]

/-- An assignment fits just when, with its forms, every short branch of the items does. -/
theorem fits_iff (state : Labelled start calls e) (labels : e.labels.toList = marks.map some)
    (long : Nat → Bool) :
    e.Fits long ↔ AllFit marks.toArray (withForms long e.items.toList) := by
  constructor
  · intro fits k condition label found
    rw [withForms_getElem?, Option.map_eq_some_iff] at found
    obtain ⟨item, found, formed⟩ := found
    obtain ⟨wide, rfl, short⟩ := inForm_eq_short.mp formed
    rw [Array.getElem?_toList] at found
    obtain ⟨placed, bound⟩ := state.target labels found
    rw [fitsByte_iff, displacement_eq long (Array.getElem?_eq_some_iff.mp found).1 bound]
    exact fits k condition wide label _ found placed short
  · intro fits k condition wide label target found placed short
    obtain ⟨placed', bound⟩ := state.target labels found
    obtain rfl : marks.toArray.getD label.id 0 = target := by simpa [placed] using placed'.symm
    rw [← displacement_eq long (Array.getElem?_eq_some_iff.mp found).1 bound, ← fitsByte_iff]
    refine fits k condition label ?_
    rw [withForms_getElem?, Array.getElem?_toList, found]
    exact congrArg some (inForm_eq_short.mpr ⟨wide, rfl, short⟩)

end Labelled

/-- The instructions of a layout. -/
def placeAll (targets : Targets) (items : List Item) : List Instruction :=
  items.mapIdx fun k item => placeItem targets (offsets items) item ((offsets items).getD k 0)

theorem placeAll_getElem? (targets : Targets) (items : List Item) (k : Nat) :
    (placeAll targets items)[k]? =
      items[k]?.map fun item => placeItem targets (offsets items) item (offsetOf items k) := by
  simp [placeAll, offsetOf]

theorem placeAll_opcodes (targets : Targets) (items : List Item) :
    (placeAll targets items).map (·.opcode) = items.map Item.opcode := by
  apply List.ext_getElem?
  intro k
  rw [List.getElem?_map, List.getElem?_map, placeAll_getElem?, Option.map_map]
  rfl

theorem offsetOf_eq_bytes_placed (targets : Targets) {items : List Item} {k : Nat}
    (bound : k ≤ items.length) :
    offsetOf items k = bytes (((placeAll targets items).take k).map (·.opcode)) := by
  rw [List.map_take, placeAll_opcodes, offsetOf_eq_bytes bound]

theorem finish_eq {e : Encoder} {marks : List Nat} (labels : e.labels.toList = marks.map some)
    (returnType : Option ClosedType) :
    let settled := settle marks.toArray e.items.toList
    e.finish returnType = .ok {
      instructions := placeAll marks.toArray settled
      maxStack := e.maxDepth
      locals := e.locals.toList
      codeSize := offsetOf settled settled.length
      returnType } := by
  rw [Encoder.finish, targets_eq labels]
  rfl

theorem Labelled.laidOut {start : Encoder} {calls : List Call} {marks : List Nat} {m : MethodBody}
    (state : Labelled start calls (start.serve calls))
    (labels : (start.serve calls).labels.toList = marks.map some) {settled : List Item}
    (settles : settle marks.toArray (start.serve calls).items.toList = settled)
    (instructions : m.instructions = placeAll marks.toArray settled)
    (codeSize : m.codeSize = offsetOf settled settled.length) :
    LaidOut start calls (longForms settled) m := by
  have length : settled.length = (start.serve calls).items.size := by
    rw [← settles, settle_length]
    rfl
  have kept {k : Nat} {item : Item} (found : (start.serve calls).items[k]? = some item) :
      ∃ shown, settled[k]? = some shown ∧ shown.narrow = item.narrow := by
    rw [← settles]
    exact settle_getElem? _ (by rwa [Array.getElem?_toList])
  constructor
  · rw [instructions, placeAll_opcodes, Encoder.opcodes, ← settles, settle_eq_withForms]
  · intro k i place
    rw [instructions, placeAll_getElem?, Option.map_eq_some_iff] at place
    obtain ⟨item, found, rfl⟩ := place
    have bound := Nat.le_of_lt (List.getElem?_eq_some_iff.mp found).1
    rw [instructions, ← offsetOf_eq_bytes_placed _ bound]
    rfl
  · have whole := offsetOf_eq_bytes_placed marks.toArray (Nat.le_refl settled.length)
    rw [codeSize, whole, instructions, List.take_of_length_le (by simp [placeAll])]
  · intro k op operand found
    obtain ⟨shown, place, same⟩ := kept found
    refine ⟨_, by rw [instructions, placeAll_getElem?, place, Option.map_some], ?_⟩
    rcases shown with ⟨op', operand'⟩ | _ <;> cases same
    rfl
  · intro k condition wide label found
    obtain ⟨shown, place, same⟩ := kept found
    obtain ⟨placed, bound⟩ := state.target labels found
    refine ⟨_, _, by rw [instructions, placeAll_getElem?, place, Option.map_some],
      (state.places placed).2, placed, ?_⟩
    rcases shown with _ | ⟨condition', wide', label'⟩ <;> cases same
    rw [instructions, ← offsetOf_eq_bytes_placed _ (length ▸ bound)]
    rfl

/-- Whatever is asked of the encoder, met or not: once all labels are placed the method is laid out,
and its long branches are the fewest with which every short branch fits. -/
theorem Encoder.finish_shortest (locals : List ClosedType) (calls : List Call)
    (returnType : Option ClosedType)
    (placed : ∀ index ∈ ((Encoder.ofLocals locals).serve calls).labels, index ≠ none) :
    ∃ m long, ((Encoder.ofLocals locals).serve calls).finish returnType = .ok m ∧
      IsLeast {long | ((Encoder.ofLocals locals).serve calls).Fits long} long ∧
      LaidOut (.ofLocals locals) calls long m := by
  have state := labelled_serve locals calls
  obtain ⟨marks, labels⟩ := exists_marks fun index member =>
    placed index (Array.mem_toList_iff.mp member)
  refine ⟨_, _, finish_eq labels returnType, ⟨?_, ?_⟩, state.laidOut labels rfl rfl rfl⟩
  · refine (state.fits_iff labels _).mpr ?_
    rw [settle_eq_withForms]
    exact settle_fits _ _
  · intro long fits
    have fits := (state.fits_iff labels long).mp fits
    have start := below_withForms (fun _ _ _ => state.short) long
    have below := settle_below start (state.bounded labels) fits
    exact (longForms_mono below).trans (longForms_withForms_le long _)

/-- A branch over enough instructions, and one back over them all. -/
def farCalls : List Call :=
  [.newLabel, .newLabel, .placeLabel ⟨0⟩, .emit "ldnull" .none, .branch "brtrue" ⟨1⟩] ++
    List.replicate 126 (.emit "nop" .none) ++
    [.branch "br" ⟨0⟩, .placeLabel ⟨1⟩, .emit "pop" .none, .ret false]

theorem farCalls_shortest :
    let e := (Encoder.ofLocals []).serve farCalls
    (∀ index ∈ e.labels, index ≠ none) ∧ ∃ m long, e.finish none = .ok m ∧
      IsLeast {long | e.Fits long} long ∧ LaidOut (.ofLocals []) farCalls long m := by
  have placed : ∀ index ∈ ((Encoder.ofLocals []).serve farCalls).labels, index ≠ none := by
    decide +kernel
  exact ⟨placed, Encoder.finish_shortest [] farCalls none placed⟩

end DebugExpr.Code
