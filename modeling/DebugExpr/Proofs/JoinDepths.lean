import DebugExpr.Proofs.ShortBranches
import DebugExpr.Proofs.StackVerification

/-! Depths of the stack where control joins. The encoder notes the depth that the first branch to a
label leaves, and compares with it the later branches and the code that falls through to the label.
Where a label is placed with no branch to it yet nothing is noted, so the first branch back to it is
compared with nothing, and a loop may be entered at two depths. But for that the depths agree: if
every branch back leaves the depth at which its label was placed, all paths to a place have the same
depth there. -/
namespace DebugExpr.Code
open Metadata

/-- Every request of the session is met. -/
def Encoder.Accepts (e : Encoder) : List Call → Prop
  | [] => True
  | c :: rest => (Encode.result c.perform e).1 = .ok () ∧ (c.next e).Accepts rest

theorem Encoder.accepts_append {e : Encoder} {first second : List Call} :
    e.Accepts (first ++ second) ↔ e.Accepts first ∧ (e.serve first).Accepts second := by
  induction first generalizing e with
  | nil => simp [Accepts]
  | cons c rest ih => simp [Accepts, ih, and_assoc]

/-- The effects of the instructions of a session. -/
def effectsOf (calls : List Call) : List Effect :=
  calls.filterMap Call.effect?

theorem effectsOf_concat (calls : List Call) (c : Call) :
    effectsOf (calls ++ [c]) = effectsOf calls ++ c.effect?.toList := by
  cases hasEffect : c.effect? <;> simp [effectsOf, hasEffect]

/-- Every branch back from code that control reaches leaves the depth at which the label was
placed. -/
def LevelBack (start : Encoder) (calls : List Call) : Prop :=
  ∀ i k mnemonic label, i < k → calls[i]? = some (.placeLabel label) →
    calls[k]? = some (.branch mnemonic label) →
    (start.serve (calls.take k)).unreachable = false →
    (start.serve (calls.take (k + 1))).depth = (start.serve (calls.take (i + 1))).depth

/-- The depth at the end of the code, if control reaches it. -/
def Encoder.current (e : Encoder) : Option Int :=
  if e.unreachable then none else some e.depth

theorem Encoder.current_eq_some {e : Encoder} {depth : Int} :
    e.current = some depth ↔ e.unreachable = false ∧ e.depth = depth := by
  unfold current
  cases e.unreachable <;> simp

/-- An instruction with its effect and, if control reaches it, the depth before it. -/
structure Entry where
  item : Item
  effect : Effect
  before : Option Int

/-- Control enters the instruction of an index, or the end, with the depth. -/
def Known (e : Encoder) (entries : List Entry) (k : Nat) (depth : Int) : Prop :=
  (entries.map (·.before) ++ [e.current])[k]? = some (some depth)

section Known
variable {e e' : Encoder} {entries : List Entry} {entry : Entry} {k : Nat} {depth : Int}

theorem known_end : Known e entries entries.length depth ↔ e.current = some depth := by
  simp [Known]

theorem known_of_getElem? (found : entries[k]? = some entry) (before : entry.before = some depth) :
    Known e entries k depth := by
  have inside := (List.getElem?_eq_some_iff.mp found).1
  rw [Known, List.getElem?_append_left (by simpa using inside), List.getElem?_map, found,
    Option.map_some, before]

theorem Known.cases (known : Known e entries k depth) :
    (∃ entry, entries[k]? = some entry ∧ entry.before = some depth) ∨
      k = entries.length ∧ e.current = some depth := by
  rcases getElem?_append_cases known with inside | ⟨j, rfl, last⟩
  · simpa using Or.inl inside
  · obtain ⟨rfl, current⟩ : j = 0 ∧ e.current = some depth := by
      simpa [List.getElem?_singleton] using last
    exact .inr ⟨by simp, current⟩

theorem Known.le (known : Known e entries k depth) : k ≤ entries.length := by
  obtain ⟨_, found, -⟩ | ⟨rfl, -⟩ := known.cases
  · exact Nat.le_of_lt (List.getElem?_eq_some_iff.mp found).1
  · exact Nat.le_refl _

theorem Known.push (known : Known e entries k depth) (current : entry.before = e.current) :
    Known e' (entries ++ [entry]) k depth := by
  obtain ⟨entry', found, before⟩ | ⟨rfl, here⟩ := known.cases
  · refine known_of_getElem? ?_ before
    rwa [List.getElem?_append_left (List.getElem?_eq_some_iff.mp found).1]
  · exact known_of_getElem? List.getElem?_concat_length (current.trans here)

theorem Known.join (known : Known e entries k depth)
    (kept : ∀ depth, e.current = some depth → e'.current = some depth) :
    Known e' entries k depth := by
  obtain ⟨entry, found, before⟩ | ⟨rfl, here⟩ := known.cases
  · exact known_of_getElem? found before
  · exact known_end.mpr (kept depth here)

end Known

/-- What holds behind requests that were all met. -/
structure Tracked (start : Encoder) (calls : List Call) (e : Encoder) (entries : List Entry) :
    Prop where
  items : e.items.toList = entries.map (·.item)
  effects : effectsOf calls = entries.map (·.effect)
  first : Known e entries 0 0
  flow : ∀ entry ∈ entries, ∀ op operand, entry.item = .plain op operand →
    op.info.flow = .next ∨ op = .ret
  continues : ∀ {k : Nat} {entry : Entry} {depth : Int}, entries[k]? = some entry →
    entry.before = some depth →
    entry.item.opcode.info.flow = .next ∨ entry.item.opcode.info.flow = .conditionalBranch →
    Known e entries (k + 1) (depth + entry.effect.net)
  branches : ∀ {entry : Entry} {condition : Condition} {wide : Bool} {label : Label} {depth : Int},
    entry ∈ entries → entry.item = .branch condition wide label → entry.before = some depth →
    (∃ index, e.labels[label.id]? = some (some index) ∧
      Known e entries index (depth + entry.effect.net)) ∨
      e.labels[label.id]? = some none ∧ e.expectedDepth? label = some (depth + entry.effect.net)
  places : ∀ {label : Label} {index : Nat}, e.labels[label.id]? = some (some index) →
    ∃ j < calls.length, calls[j]? = some (.placeLabel label) ∧
      Known e entries index (start.serve (calls.take (j + 1))).depth

namespace Tracked
variable {start e e' : Encoder} {calls : List Call} {entries : List Entry} {c : Call}
  {item : Item} {effect : Effect}

/-- An instruction is added, and control goes on behind it at the depth that its effect leaves. -/
theorem push (tracked : Tracked start calls e entries) (hasEffect : c.effect? = some effect)
    (items : e'.items = e.items.push item) (labels : e'.labels = e.labels)
    (older : ∀ label depth, e.expectedDepth? label = some depth →
      e'.expectedDepth? label = some depth)
    (flow : ∀ op operand, item = .plain op operand → op.info.flow = .next ∨ op = .ret)
    (continues : ∀ depth, e.current = some depth →
      item.opcode.info.flow = .next ∨ item.opcode.info.flow = .conditionalBranch →
      e'.current = some (depth + effect.net))
    (jumps : ∀ condition wide label depth, item = .branch condition wide label →
      e.current = some depth →
      (∃ index, e.labels[label.id]? = some (some index) ∧
        Known e entries index (depth + effect.net)) ∨
      e.labels[label.id]? = some none ∧ e'.expectedDepth? label = some (depth + effect.net)) :
    Tracked start (calls ++ [c]) e' (entries ++ [⟨item, effect, e.current⟩]) := by
  have pushed {k : Nat} {depth : Int} (known : Known e entries k depth) :
      Known e' (entries ++ [⟨item, effect, e.current⟩]) k depth := known.push rfl
  constructor
  · simp [items, tracked.items]
  · simp [effectsOf_concat, tracked.effects, hasEffect]
  · exact pushed tracked.first
  · simp only [List.mem_append, List.mem_singleton]
    rintro entry (member | rfl)
    · exact tracked.flow entry member
    · exact flow
  · intro k entry depth found before goes
    rcases getElem?_append_cases found with found | ⟨j, rfl, last⟩
    · exact pushed (tracked.continues found before goes)
    · obtain ⟨rfl, rfl⟩ : j = 0 ∧ ⟨item, effect, e.current⟩ = entry := by
        simpa [List.getElem?_singleton] using last
      have behind : Known e' (entries ++ [⟨item, effect, e.current⟩]) _ (depth + effect.net) :=
        known_end.mpr (continues depth before goes)
      rwa [List.length_append] at behind
  · intro entry condition wide label depth member isBranch before
    rw [labels]
    simp only [List.mem_append, List.mem_singleton] at member
    obtain member | rfl := member
    · obtain ⟨index, placed, known⟩ | ⟨fresh, noted⟩ := tracked.branches member isBranch before
      · exact .inl ⟨index, placed, pushed known⟩
      · exact .inr ⟨fresh, older label _ noted⟩
    · obtain ⟨index, placed, known⟩ | noted := jumps _ _ _ depth isBranch before
      · exact .inl ⟨index, placed, pushed known⟩
      · exact .inr noted
  · intro label index placed
    rw [labels] at placed
    obtain ⟨j, inside, isPlace, known⟩ := tracked.places placed
    refine ⟨j, by simp; omega, by rwa [List.getElem?_append_left inside], ?_⟩
    rw [List.take_append_of_le_length inside]
    exact pushed known

/-- No instruction is added, and a label may be placed where the code ends. -/
theorem join (tracked : Tracked start calls e entries) (noEffect : c.effect? = none)
    (items : e'.items = e.items) (kept : ∀ depth, e.current = some depth → e'.current = some depth)
    (placed : ∀ (label : Label) (index : Nat), e.labels[label.id]? = some (some index) →
      e'.labels[label.id]? = some (some index))
    (noted : ∀ (label : Label) (depth : Int), e.labels[label.id]? = some none →
      e.expectedDepth? label = some depth →
      e'.labels[label.id]? = some (some e.items.size) ∧ e'.current = some depth ∨
        e'.labels[label.id]? = some none ∧ e'.expectedDepth? label = some depth)
    (places : ∀ (label : Label) (index : Nat), e'.labels[label.id]? = some (some index) →
      e.labels[label.id]? = some (some index) ∨
        index = e.items.size ∧ c = .placeLabel label ∧
          e'.current = some (start.serve (calls ++ [c])).depth) :
    Tracked start (calls ++ [c]) e' entries := by
  have joined {k : Nat} {depth : Int} (known : Known e entries k depth) :
      Known e' entries k depth := known.join kept
  have count : entries.length = e.items.size := by
    simpa using congrArg List.length tracked.items.symm
  constructor
  · rw [items, tracked.items]
  · simp [effectsOf_concat, tracked.effects, noEffect]
  · exact joined tracked.first
  · exact tracked.flow
  · exact fun found before goes => joined (tracked.continues found before goes)
  · intro entry condition wide label depth member isBranch before
    obtain ⟨index, isPlaced, known⟩ | ⟨fresh, isNoted⟩ := tracked.branches member isBranch before
    · exact .inl ⟨index, placed label index isPlaced, joined known⟩
    · refine (noted label _ fresh isNoted).imp_left fun here => ?_
      exact ⟨_, here.1, count ▸ known_end.mpr here.2⟩
  · intro label index isPlaced
    obtain older | ⟨rfl, rfl, here⟩ := places label index isPlaced
    · obtain ⟨j, inside, isPlace, known⟩ := tracked.places older
      refine ⟨j, by simp; omega, by rwa [List.getElem?_append_left inside], ?_⟩
      rw [List.take_append_of_le_length inside]
      exact joined known
    · refine ⟨calls.length, by simp, by simp, ?_⟩
      rw [List.take_of_length_le (by simp)]
      exact count ▸ known_end.mpr here

/-- A branch back leaves the depth at which control enters the instruction behind its label. -/
theorem known_back (tracked : Tracked start calls (start.serve calls) entries) {mnemonic : String}
    {label : Label} (level : LevelBack start (calls ++ [.branch mnemonic label]))
    (reachable : (start.serve calls).unreachable = false) {index : Nat}
    (placed : (start.serve calls).labels[label.id]? = some (some index)) :
    Known (start.serve calls) entries index
      (start.serve (calls ++ [.branch mnemonic label])).depth := by
  obtain ⟨j, inside, isPlace, known⟩ := tracked.places placed
  have same := level j calls.length mnemonic label inside
    (by rwa [List.getElem?_append_left inside]) (by simp) (by simpa using reachable)
  rw [List.take_of_length_le (by simp), List.take_append_of_le_length inside] at same
  rwa [same]

theorem branch (tracked : Tracked start calls (start.serve calls) entries) {mnemonic : String}
    {label : Label} {condition : Condition}
    (level : LevelBack start (calls ++ [.branch mnemonic label]))
    (served : start.serve (calls ++ [.branch mnemonic label]) = e')
    (hasEffect : (Call.branch mnemonic label).effect? = some ⟨condition.pops, 0⟩)
    (known : label.id < (start.serve calls).labels.size)
    (items : e'.items = (start.serve calls).items.push (.branch condition false label))
    (labels : e'.labels = (start.serve calls).labels)
    (made : Encode.Branched (start.serve calls) e' condition label) :
    ∃ entries', Tracked start (calls ++ [.branch mnemonic label]) e' entries' := by
  refine ⟨_, tracked.push hasEffect items labels made.older (by simp) ?_ ?_⟩
  · intro before current flow
    obtain ⟨reachable, rfl⟩ := Encoder.current_eq_some.mp current
    have conditional : condition ≠ .always := by
      rintro rfl
      obtain flow | flow := flow <;> cases flow
    refine Encoder.current_eq_some.mpr ⟨?_, made.depth reachable⟩
    simp [made.unreachable, conditional, reachable]
  · rintro _ _ _ before ⟨⟩ current
    obtain ⟨reachable, rfl⟩ := Encoder.current_eq_some.mp current
    rw [← made.depth reachable]
    obtain ⟨place, found⟩ : ∃ place, (start.serve calls).labels[label.id]? = some place :=
      ⟨_, Array.getElem?_eq_getElem known⟩
    cases place with
    | none => exact .inr ⟨found, made.noted⟩
    | some index =>
      have back := tracked.known_back level reachable found
      rw [served] at back
      exact .inl ⟨index, found, back⟩

theorem newLabel (tracked : Tracked start calls (start.serve calls) entries) :
    Tracked start (calls ++ [.newLabel])
      { start.serve calls with labels := (start.serve calls).labels.push none } entries := by
  have older {label : Label} {place : Option Nat}
      (found : (start.serve calls).labels[label.id]? = some place) :
      ((start.serve calls).labels.push none)[label.id]? = some place := by
    have known := (Array.getElem?_eq_some_iff.mp found).1
    rwa [Array.getElem?_push_lt known, ← Array.getElem?_eq_getElem known]
  refine tracked.join rfl rfl (fun _ => id) (fun _ _ => older) ?_ ?_
  · exact fun label depth fresh noted => .inr ⟨older fresh, noted⟩
  · intro label index placed
    rw [Array.getElem?_push] at placed
    split at placed
    · cases placed
    · exact .inl placed

theorem placeLabel (tracked : Tracked start calls (start.serve calls) entries) {placed : Label}
    (served : start.serve (calls ++ [.placeLabel placed]) = e')
    (fresh : (start.serve calls).labels[placed.id]? = some none)
    (items : e'.items = (start.serve calls).items)
    (labels : e'.labels = (start.serve calls).labels.setIfInBounds placed.id
      (some (start.serve calls).items.size))
    (joined : Encode.Joined (start.serve calls) e' placed) :
    Tracked start (calls ++ [.placeLabel placed]) e' entries := by
  have known := (Array.getElem?_eq_some_iff.mp fresh).1
  refine tracked.join rfl items ?_ ?_ ?_ ?_
  · intro before current
    obtain ⟨reachable, rfl⟩ := Encoder.current_eq_some.mp current
    exact Encoder.current_eq_some.mpr ⟨joined.unreachable, joined.depth reachable⟩
  · intro label index older
    have other : placed.id ≠ label.id := by
      intro same
      rw [← same, fresh] at older
      cases older
    rwa [labels, Array.getElem?_setIfInBounds_ne other]
  · intro label before isOpen isNoted
    by_cases same : placed.id = label.id
    · obtain rfl : placed = label := Label.mk.injEq .. |>.mpr same
      refine .inl ⟨by simp [labels, known], ?_⟩
      exact Encoder.current_eq_some.mpr ⟨joined.unreachable, joined.noted before isNoted⟩
    · refine .inr ⟨?_, ?_⟩
      · rwa [labels, Array.getElem?_setIfInBounds_ne same]
      · rwa [Encoder.expectedDepth?, joined.branchDepths]
  · intro label index isPlaced
    by_cases same : placed.id = label.id
    · obtain rfl : placed = label := Label.mk.injEq .. |>.mpr same
      refine .inr ⟨?_, rfl, ?_⟩
      · simpa [labels, known] using isPlaced.symm
      · exact Encoder.current_eq_some.mpr ⟨joined.unreachable, by rw [served]⟩
    · rw [labels, Array.getElem?_setIfInBounds_ne same] at isPlaced
      exact .inl isPlaced

theorem next (tracked : Tracked start calls (start.serve calls) entries) (c : Call)
    (accepted : (Encode.result c.perform (start.serve calls)).1 = .ok ())
    (level : LevelBack start (calls ++ [c])) :
    ∃ entries', Tracked start (calls ++ [c]) (start.serve (calls ++ [c])) entries' := by
  have writes := c.writes (start.serve calls)
  rw [accepted] at writes
  have served : start.serve (calls ++ [c]) = c.next (start.serve calls) := by simp
  generalize isNext : c.next (start.serve calls) = e' at writes served
  rw [served]
  cases writes with
  | plain hasEffect flow items labels moves =>
    obtain ⟨unreachable, depth, -, branchDepths⟩ := moves rfl
    refine ⟨_, tracked.push hasEffect items labels ?_ ?_ ?_ (by simp)⟩
    · simp [Encoder.expectedDepth?, branchDepths]
    · rintro op operand ⟨⟩
      exact .inl flow
    · intro before current _
      obtain ⟨reachable, rfl⟩ := Encoder.current_eq_some.mp current
      exact Encoder.current_eq_some.mpr ⟨unreachable.trans reachable, depth reachable⟩
  | ret items labels branchDepths ends =>
    refine ⟨_, tracked.push rfl items labels ?_ ?_ ?_ (by simp)⟩
    · simp [Encoder.expectedDepth?, branchDepths]
    · rintro op operand ⟨⟩
      exact .inr rfl
    · rintro depth - (flow | flow) <;> cases flow
  | branch hasEffect known items labels made =>
    exact tracked.branch level served hasEffect known items labels (made rfl)
  | newLabel => exact ⟨_, tracked.newLabel⟩
  | placeLabel fresh items labels joins =>
    exact ⟨_, tracked.placeLabel served fresh items labels (joins rfl)⟩
  | newLocal type =>
    exact ⟨_, tracked.join rfl rfl (fun _ => id) (fun _ _ => id)
      (fun _ _ fresh noted => .inr ⟨fresh, noted⟩) fun _ _ => .inl⟩

end Tracked

theorem LevelBack.start {start : Encoder} {first second : List Call}
    (level : LevelBack start (first ++ second)) : LevelBack start first := by
  intro i k mnemonic label before isPlace isBranch reachable
  have inside := (List.getElem?_eq_some_iff.mp isBranch).1
  have same := level i k mnemonic label before
    (by rwa [List.getElem?_append_left (by omega)]) (by rwa [List.getElem?_append_left inside])
  rw [List.take_append_of_le_length (by omega), List.take_append_of_le_length (by omega),
    List.take_append_of_le_length (by omega)] at same
  exact same reachable

theorem mapIdxM_go_marks {f : Nat → Option Nat → Except Fault Nat}
    (refuses : ∀ i index, f i none ≠ .ok index) {places : List (Option Nat)} {before : Array Nat}
    {marks : List Nat} (found : List.mapIdxM.go f places before = .ok marks) : none ∉ places := by
  induction places generalizing before with
  | nil => simp
  | cons place rest ih =>
    cases place with
    | none =>
      simp only [List.mapIdxM.go, bind_eq_ok] at found
      obtain ⟨index, placed, -⟩ := found
      exact absurd placed (refuses _ index)
    | some index =>
      simp only [List.mapIdxM.go, bind_eq_ok] at found
      obtain ⟨_, -, found⟩ := found
      simpa using ih found

/-- A layout succeeds only when all labels are placed. -/
theorem marks_of_finish {e : Encoder} {returnType : Option ClosedType} {m : MethodBody}
    (finished : e.finish returnType = .ok m) :
    ∃ marks : List Nat, e.labels.toList = marks.map some := by
  simp only [Encoder.finish, Encoder.targets, bind_eq_ok] at finished
  obtain ⟨targets, ⟨marks, found, -⟩, -⟩ := finished
  have placed := mapIdxM_go_marks (fun _ _ => by simp) found
  exact exists_marks fun index member none => placed (none ▸ member)

section Successors
variable {i : Instruction} {offset : Nat → Nat} {marks : List Nat}

theorem Condition.flow {condition : Condition} (conditional : condition ≠ .always) (wide : Bool)
    (label : Label) :
    (Item.branch condition wide label).opcode.info.flow = .conditionalBranch := by
  cases condition <;> cases wide <;> first | rfl | exact absurd rfl conditional

end Successors

namespace Tracked
variable {start e : Encoder} {calls : List Call} {entries : List Entry} {marks : List Nat}
  {m : MethodBody} {offset : Nat → Nat}

theorem count (tracked : Tracked start calls e entries) :
    entries.length = e.items.toList.length := by
  simpa using congrArg List.length tracked.items.symm

end Tracked

theorem settle_eq_self {targets : Targets} {items : List Item}
    (settled : ¬ (widenPass targets items).countP isNarrow < items.countP isNarrow) :
    settle targets items = items := by
  rw [settle]
  exact if_neg settled

end DebugExpr.Code
