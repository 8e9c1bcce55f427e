import DebugExpr.Proofs.StackVerification
import DebugExpr.Proofs.VariableAccesses

/-! Temporaries are stored before they are used. The code that creates a temporary stores to it and
uses it behind. Branches go to the ends of choices, and a choice that ends between the store and the
use begins there too, so control comes to the use through the store alone. -/
namespace DebugExpr.Code
open Metadata DebugExpr.Bound

/-- Control can come to the offset by the instructions that are passed, in this order. -/
inductive Path (is : List Instruction) : List Instruction → Nat → Prop
  | entry : Path is [] 0
  | step {passed : List Instruction} {i : Instruction} {next : Nat}
    (path : Path is passed i.offset) (member : i ∈ is) (goes : next ∈ i.successors) :
    Path is (passed ++ [i]) next

namespace Block

/-- The instruction of the first index stores to the local, and no branch from before it goes behind
it, up to the second index. -/
structure StoredBefore (b : Block) (label slot : Nat) (x : Variable) (p q : Nat) : Prop where
  before : p < q
  stores : ∃ item, (b.items label slot)[p]? = some item ∧ item.access? = some (.store, x)
  guards : ∀ {k j : Nat}, b.Jumps k j → p < j → j ≤ q → p ≤ k

namespace StoredBefore
variable {b first second left right body : Block} {type : ClosedType} {label slot p q : Nat}
  {x : Variable}

theorem inFirst (stored : first.StoredBefore label slot x p q)
    (inside : q < first.effects.length) : (seq first second).StoredBefore label slot x p q where
  before := stored.before
  stores := by
    obtain ⟨item, found, stores⟩ := stored.stores
    have known := (List.getElem?_eq_some_iff.mp found).1
    exact ⟨item, by rwa [items, List.getElem?_append_left known], stores⟩
  guards jumps later within := by
    cases jumps with
    | first inner => exact stored.guards inner later within
    | second inner => omega

theorem inSecond (stored : second.StoredBefore (label + first.labelCount)
    (slot + first.temporaries.length) x p q) : (seq first second).StoredBefore label slot x
      (first.effects.length + p) (first.effects.length + q) where
  before := Nat.add_lt_add_left stored.before _
  stores := by
    obtain ⟨item, found, stores⟩ := stored.stores
    refine ⟨item, ?_, stores⟩
    rwa [items, ← items_length first label slot, List.getElem?_append_right (by omega),
      Nat.add_sub_cancel_left]
  guards jumps later within := by
    cases jumps with
    | first inner =>
      have := inner.later
      omega
    | second inner =>
      have := stored.guards inner (by omega) (by omega)
      omega

theorem inLeft (stored : left.StoredBefore (label + 1) slot x p q)
    (inside : q < left.effects.length) : (orElse left right).StoredBefore label slot x p q where
  before := stored.before
  stores := by
    obtain ⟨item, found, stores⟩ := stored.stores
    have known := (List.getElem?_eq_some_iff.mp found).1
    refine ⟨item, ?_, stores⟩
    rwa [items, List.append_assoc, List.getElem?_append_left known]
  guards jumps later within := by
    cases jumps with
    | left inner => exact stored.guards inner later within
    | choice | right => omega

theorem inRight (stored : right.StoredBefore (label + 1 + left.labelCount)
    (slot + left.temporaries.length) x p q) (inside : q < right.effects.length) :
    (orElse left right).StoredBefore label slot x (left.effects.length + 3 + p)
      (left.effects.length + 3 + q) where
  before := Nat.add_lt_add_left stored.before _
  stores := by
    obtain ⟨item, found, stores⟩ := stored.stores
    refine ⟨item, ?_, stores⟩
    rw [items, List.getElem?_append_right (by simp [items_length])]
    simpa [items_length] using found
  guards jumps later within := by
    cases jumps with
    | choice => omega
    | left inner =>
      have := inner.later
      omega
    | right inner =>
      have := stored.guards inner (by omega) (by omega)
      omega

theorem inBody (stored : body.StoredBefore label (slot + 1) x p q) :
    (keeping type body).StoredBefore label slot x (2 + p) (2 + q) where
  before := Nat.add_lt_add_left stored.before _
  stores := by
    obtain ⟨item, found, stores⟩ := stored.stores
    have known := (List.getElem?_eq_some_iff.mp found).1
    refine ⟨item, ?_, stores⟩
    rw [items, List.append_assoc, List.getElem?_append_right (by simp)]
    simpa [List.getElem?_append_left known] using found
  guards jumps later within := by
    cases jumps with
    | body inner =>
      have := stored.guards inner (by omega) (by omega)
      omega

/-- The copy is stored before all that is done with it. -/
theorem keeping {last : Nat} (behind : 1 < last) :
    (keeping type body).StoredBefore label slot (.local slot) 1 last where
  before := behind
  stores := ⟨(Form.storeLocal slot).item, rfl, Form.storeLocal_access slot⟩
  guards jumps later within := by
    cases jumps with
    | body inner => omega

theorem spill : (spill type).StoredBefore label slot (.local slot) 0 1 where
  before := Nat.zero_lt_one
  stores := ⟨(Form.storeLocal slot).item, rfl, Form.storeLocal_access slot⟩
  guards jumps := nomatch jumps

end StoredBefore

/-- A local that the block does not name for itself is one of its temporaries, and an instruction
that reads it or takes its address stands behind one that stores to it. -/
theorem temporary_stored {b : Block} {locals : Nat} (lawful : b.Lawful) (names : b.Names locals)
    (label : Nat) {slot : Nat} (behind : locals ≤ slot) {q index : Nat} {item : Item}
    {access : Access} (found : (b.items label slot)[q]? = some item)
    (accesses : item.access? = some (access, .local index)) (temporary : locals ≤ index) :
    index < slot + b.temporaries.length ∧
      (access ≠ .store → ∃ p, b.StoredBefore label slot (.local index) p q) := by
  induction b generalizing label slot q with
  | skip | fault => simp [items] at found
  | plain op operand =>
    obtain ⟨-, rfl⟩ : q = 0 ∧ Item.plain op operand = item := by
      simpa [items, List.getElem?_singleton] using found
    have named := names _ (Option.mem_toList.mpr accesses)
    simp only [isNamed, decide_eq_true_eq] at named
    omega
  | call op callee =>
    obtain ⟨-, rfl⟩ : q = 0 ∧ Item.plain op (.member callee.display) = item := by
      simpa [items, List.getElem?_singleton] using found
    cases (access?_of_callable lawful.1 _).symm.trans accesses
  | seq first second ihFirst ihSecond =>
    obtain ⟨namesFirst, namesSecond⟩ : first.Names locals ∧ second.Names locals :=
      List.forall_mem_append.mp names
    rcases getElem?_append_cases found with inside | ⟨q, rfl, inside⟩
    · obtain ⟨bound, stored⟩ := ihFirst lawful.1 namesFirst label behind inside
      have known := (List.getElem?_eq_some_iff.mp inside).1
      rw [items_length] at known
      refine ⟨?_, fun reads => (stored reads).imp fun _ stored => stored.inFirst known⟩
      simp only [temporaries, List.length_append]
      omega
    · obtain ⟨bound, stored⟩ :=
        ihSecond lawful.2 namesSecond _ (Nat.le_add_right_of_le behind) inside
      rw [items_length]
      refine ⟨?_, fun reads => ?_⟩
      · simpa only [temporaries, List.length_append, Nat.add_assoc] using bound
      · obtain ⟨p, stored⟩ := stored reads
        exact ⟨_, stored.inSecond⟩
  | orElse left right ihLeft ihRight =>
    obtain ⟨namesLeft, namesRight⟩ : left.Names locals ∧ right.Names locals :=
      List.forall_mem_append.mp names
    rcases getElem?_append_cases found with inside | ⟨q, rfl, inside⟩
    · rcases getElem?_append_cases inside with inside | ⟨q, rfl, test⟩
      · obtain ⟨bound, stored⟩ := ihLeft lawful.1 namesLeft _ behind inside
        have known := (List.getElem?_eq_some_iff.mp inside).1
        rw [items_length] at known
        refine ⟨?_, fun reads => (stored reads).imp fun _ stored => stored.inLeft known⟩
        simp only [temporaries, List.length_append]
        omega
      · have member := List.mem_of_getElem? test
        simp only [List.mem_cons, List.not_mem_nil, or_false] at member
        obtain rfl | rfl | rfl := member <;> cases accesses
    · obtain ⟨bound, stored⟩ :=
        ihRight lawful.2.1 namesRight _ (Nat.le_add_right_of_le behind) inside
      have known := (List.getElem?_eq_some_iff.mp inside).1
      rw [items_length] at known
      simp only [List.length_append, items_length, List.length_cons, List.length_nil]
      refine ⟨?_, fun reads => ?_⟩
      · simpa only [temporaries, List.length_append, Nat.add_assoc] using bound
      · obtain ⟨p, stored⟩ := stored reads
        exact ⟨_, stored.inRight known⟩
  | spill type =>
    rcases q with _ | _ | q
    · obtain rfl : _ = item := by simpa [items] using found
      cases (Form.storeLocal_access slot).symm.trans accesses
      exact ⟨Nat.lt_succ_self _, fun reads => absurd rfl reads⟩
    · obtain rfl : _ = item := by simpa [items] using found
      cases (Form.loadLocalAddress_access slot).symm.trans accesses
      exact ⟨Nat.lt_succ_self _, fun _ => ⟨0, .spill⟩⟩
    · simp [items] at found
  | keeping type body ih =>
    rcases getElem?_append_cases found with inside | ⟨q, rfl, last⟩
    · rcases getElem?_append_cases inside with copy | ⟨q, rfl, bodyItem⟩
      · have member := List.mem_of_getElem? copy
        simp only [List.mem_cons, List.not_mem_nil, or_false] at member
        obtain rfl | rfl := member
        · cases accesses
        · cases (Form.storeLocal_access slot).symm.trans accesses
          refine ⟨?_, fun reads => absurd rfl reads⟩
          simp [temporaries]
      · obtain ⟨bound, stored⟩ := ih lawful names _ (Nat.le_succ_of_le behind) bodyItem
        refine ⟨?_, fun reads => ?_⟩
        · simp only [temporaries, List.length_cons]
          omega
        · obtain ⟨p, stored⟩ := stored reads
          exact ⟨_, stored.inBody⟩
    · have member := List.mem_of_getElem? last
      simp only [List.mem_cons, List.not_mem_nil, or_false] at member
      subst member
      cases (Form.loadLocal_access slot).symm.trans accesses
      refine ⟨?_, fun _ => ⟨1, .keeping ?_⟩⟩
      · simp [temporaries]
      · simp only [List.length_append, List.length_cons, List.length_nil]
        omega

end Block

namespace MethodBody.IsOf
variable {m : MethodBody} {locals : List ClosedType} {b : Block} {hasValue : Bool}
  {offset : Nat → Nat} (isOf : m.IsOf locals b hasValue offset) (lawful : b.Lawful)
  {i : Instruction}

include isOf lawful in
/-- Control that comes behind a store, but not farther than the store is before, has passed it. -/
theorem passes {label slot p q : Nat} {x : Variable} (stored : b.StoredBefore label slot x p q)
    (inside : q ≤ b.effects.length) {passed : List Instruction} {place : Nat}
    (path : Path m.instructions passed place) {k : Nat} (here : place = offset k) (behind : p < k)
    (within : k ≤ q) : ∃ i ∈ passed, m.instructions[p]? = some i := by
  induction path generalizing k with
  | entry =>
    have := isOf.offset_injective (Nat.zero_le _) (Nat.le_trans within inside)
      (isOf.placed.first.trans here)
    omega
  | @step passed i next path member goes ih =>
    obtain ⟨former, found⟩ := List.mem_iff_getElem?.mp member
    rcases Nat.lt_or_eq_of_le (isOf.index_le found) with before | rfl
    · obtain ⟨-, -, further⟩ := isOf.successors_jump lawful before found
      obtain ⟨j, there, goes⟩ := further next goes
      have known : former < j ∧ j ≤ b.effects.length := by
        rcases goes with rfl | jumps
        · omega
        · exact jumps.later
      obtain rfl : j = k :=
        isOf.offset_injective known.2 (Nat.le_trans within inside) (there.symm.trans here)
      have reached : p ≤ former := by
        rcases goes with rfl | jumps
        · omega
        · exact stored.guards jumps behind within
      rcases Nat.lt_or_eq_of_le reached with behind | rfl
      · obtain ⟨store, passed, isStore⟩ :=
          ih (isOf.placed.place found).1 behind (Nat.le_trans (Nat.le_of_lt known.1) within)
        exact ⟨store, List.mem_append_left _ passed, isStore⟩
      · exact ⟨i, by simp, found⟩
    · rw [successors_of_ret (isOf.last_shows found)] at goes
      cases goes

include isOf in
/-- Every instruction shows an item of the block or is the return. -/
theorem shows_item (member : i ∈ m.instructions) :
    ∃ (k : Nat) (item : Item), m.instructions[k]? = some i ∧ item.Shows offset (b.marks 0) i ∧
      ((b.items 0 locals.length)[k]? = some item ∨ item = .plain .ret .none) := by
  obtain ⟨k, found⟩ := List.mem_iff_getElem?.mp member
  obtain ⟨i', item, -, found', isItem, -, shows⟩ := isOf.at_index (isOf.index_le found)
  obtain rfl : i' = i := by simpa [found] using found'.symm
  refine ⟨k, item, found, shows, ?_⟩
  rcases getElem?_append_cases isItem with inside | ⟨_, -, ret⟩
  · exact .inl inside
  · exact .inr (List.mem_singleton.mp (List.mem_of_getElem? ret))

include isOf lawful in
/-- Every access has a variable. -/
theorem access?_isSome (member : i ∈ m.instructions) (accesses : i.opcode.access?.isSome) :
    i.access?.isSome := by
  obtain ⟨k, item, -, shows, inside | rfl⟩ := isOf.shows_item member
  · have fits := Block.items_fit lawful 0 locals.length item (List.mem_of_getElem? inside)
    cases item with
    | plain op operand =>
      obtain ⟨rfl, rfl⟩ := shows
      obtain ⟨index, hasIndex⟩ := Option.isSome_iff_exists.mp (Opcode.index?_isSome fits accesses)
      obtain ⟨access, isAccess⟩ := Option.isSome_iff_exists.mp accesses
      simp [Instruction.access?, access?, hasIndex, isAccess]
    | branch condition =>
      obtain ⟨opcode | opcode, -⟩ := shows <;> rw [opcode] at accesses <;> cases condition <;>
        cases accesses
  · rw [shows.1] at accesses
    cases accesses

include isOf lawful in
/-- The method accesses the variables that the block names, in order. -/
theorem accesses_eq (names : b.Names locals.length) :
    (m.instructions.filterMap Instruction.access?).filter (isNamed locals.length ·.2) =
      b.accesses := by
  have ret : [Item.plain .ret .none].filterMap Item.access? = [] := rfl
  rw [isOf.placed.filterMap_eq Item.Shows.access?_eq, Block.methodItems, List.filterMap_append,
    ret, List.append_nil]
  exact Block.items_accesses lawful names 0 (Nat.le_refl _)

include isOf lawful in
/-- A local behind the first ones is a temporary. Control comes to an instruction that reads it or
takes its address by way of one that stores to it. -/
theorem temporary_passed (names : b.Names locals.length) (member : i ∈ m.instructions)
    {access : Access} {index : Nat} (accesses : i.access? = some (access, .local index))
    (temporary : locals.length ≤ index) :
    index < m.locals.length ∧
      (access ≠ .store → ∀ passed, Path m.instructions passed i.offset →
        ∃ store ∈ passed, store.access? = some (.store, .local index)) := by
  obtain ⟨q, item, found, shows, inside | rfl⟩ := isOf.shows_item member
  · rw [shows.access?_eq] at accesses
    obtain ⟨bound, stored⟩ :=
      Block.temporary_stored lawful names 0 (Nat.le_refl _) inside accesses temporary
    refine ⟨by simpa [isOf.locals] using bound, fun reads passed path => ?_⟩
    obtain ⟨p, stored⟩ := stored reads
    obtain ⟨store, isPassed, isStore⟩ := isOf.passes lawful stored (isOf.index_le found) path
      (isOf.placed.place found).1 stored.before (Nat.le_refl q)
    obtain ⟨item, isItem, stores⟩ := stored.stores
    have known := (List.getElem?_eq_some_iff.mp isItem).1
    refine ⟨store, isPassed, ?_⟩
    rw [(isOf.placed.shows isStore (by rwa [Block.methodItems,
      List.getElem?_append_left known])).access?_eq, stores]
  · rw [shows.access?_eq] at accesses
    cases accesses

end MethodBody.IsOf

end DebugExpr.Code
