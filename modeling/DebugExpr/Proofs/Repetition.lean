import DebugExpr.Parsing.Iterate
import DebugExpr.Proofs.Success

/-! Repetitions, from both sides. What every step keeps holds of a value that was read, and a list
that was written item by item is read back as that list. -/
namespace DebugExpr.Parsing

variable {α τ ε : Type}

/-- A repetition is over, or it goes on behind its first step. -/
theorem iterate_cases {step : α → List τ → Except ε (Option (α × List τ))} {value result : α}
    {input rest : List τ} (read : iterate step value input = .ok (result, rest)) :
    (step value input = .ok none ∧ result = value ∧ rest = input) ∨
      ∃ next after, step value input = .ok (some (next, after)) ∧
        if after.length < input.length then iterate step next after = .ok (result, rest)
        else result = next ∧ rest = after := by
  rw [iterate] at read
  split at read
  · cases read
  · next ends =>
    cases read
    exact .inl ⟨ends, rfl, rfl⟩
  · next next after taken =>
    refine .inr ⟨next, after, taken, ?_⟩
    split at read
    · next shorter => rwa [if_pos shorter]
    · next longer =>
      rw [if_neg longer]
      cases read
      exact ⟨rfl, rfl⟩

/-- What every step keeps of the value and of the input holds in the end. -/
theorem iterate_invariant {step : α → List τ → Except ε (Option (α × List τ))}
    {P : α → List τ → Prop}
    (kept : ∀ value input next rest,
      step value input = .ok (some (next, rest)) → P value input → P next rest)
    {value result : α} {input rest : List τ}
    (read : iterate step value input = .ok (result, rest)) (initial : P value input) :
    P result rest := by
  fun_induction iterate step value input with
  | case1 value input e failed => cases read
  | case2 value input ends =>
    cases read
    exact initial
  | case3 value input next rest taken shorter ih =>
    exact ih read (kept _ _ _ _ taken initial)
  | case4 value input next rest taken longer =>
    cases read
    exact kept _ _ _ _ taken initial

theorem iterate_keeps {step : α → List τ → Except ε (Option (α × List τ))} {P : α → Prop}
    (kept : ∀ value input next rest,
      step value input = .ok (some (next, rest)) → P value → P next)
    {value result : α} {input rest : List τ}
    (read : iterate step value input = .ok (result, rest)) (initial : P value) : P result :=
  iterate_invariant (P := fun value _ => P value) kept read initial

/-- A step that reads one item after another reads them all, up to where it ends. -/
theorem iterate_written {step : List α → List τ → Except ε (Option (List α × List τ))}
    {write : α → List τ} {rest : List τ} {more : List α} (Follows : List τ → Prop)
    (reads : ∀ x ∈ more, ∀ items rest, Follows rest →
      step items (write x ++ rest) = .ok (some (items ++ [x], rest)))
    (visible : ∀ x ∈ more, write x ≠ [])
    (next : ∀ x ∈ more, ∀ rest, Follows (write x ++ rest))
    (ends : ∀ items, step items rest = .ok none) (last : Follows rest) (items : List α) :
    iterate step items (more.flatMap write ++ rest) = .ok (items ++ more, rest) := by
  induction more generalizing items with
  | nil =>
    rw [List.flatMap_nil, List.nil_append, iterate_eq_ok (ends items), List.append_nil]
  | cons x more ih =>
    have follows : Follows (more.flatMap write ++ rest) := by
      cases more with
      | nil => exact last
      | cons y more =>
        rw [List.flatMap_cons, List.append_assoc]
        exact next y (by simp) _
    have shorter : (more.flatMap write ++ rest).length <
        (write x ++ (more.flatMap write ++ rest)).length := by
      have := List.length_pos_iff.mpr (visible x (by simp))
      simp only [List.length_append]
      omega
    rw [List.flatMap_cons, List.append_assoc,
      iterate_step (reads x (by simp) items _ follows) shorter]
    have := ih (fun y member => reads y (by simp [member]))
      (fun y member => visible y (by simp [member])) (fun y member => next y (by simp [member]))
      (items ++ [x])
    rw [this, List.append_assoc, List.singleton_append]

variable {separator : List τ → Option (List τ)} {item : List τ → Except ε (α × List τ)}

/-- One further item behind its separator. -/
def separatedStep (separator : List τ → Option (List τ)) (item : List τ → Except ε (α × List τ))
    (items : List α) (input : List τ) : Except ε (Option (List α × List τ)) :=
  match separator input with
  | none => return none
  | some input => do
    let (next, rest) ← item input
    return some (items ++ [next], rest)

theorem separated_eq (input : List τ) : separated separator item input = (do
    let (first, rest) ← item input
    iterate (separatedStep separator item) [first] rest) :=
  rfl

/-- Items that are read one after another all have a property that an invariant of the input
brings about. -/
theorem separated_invariant {P : α → Prop} {Q : List τ → Prop}
    (each : ∀ input x rest, item input = .ok (x, rest) → Q input → P x ∧ Q rest)
    (between : ∀ input rest, separator input = some rest → Q input → Q rest)
    {input rest : List τ} {items : List α}
    (read : separated separator item input = .ok (items, rest)) (initial : Q input) :
    (∃ first more after, items = first :: more ∧ item input = .ok (first, after)) ∧
      (∀ x ∈ items, P x) ∧ Q rest := by
  simp only [separated_eq, bind_eq_ok] at read
  obtain ⟨⟨first, remaining⟩, one, read⟩ := read
  obtain ⟨holds, left⟩ := each _ _ _ one initial
  have kept : ∀ read input next rest,
      separatedStep separator item read input = .ok (some (next, rest)) →
      (∃ more, read = first :: more) ∧ (∀ x ∈ read, P x) ∧ Q input →
      (∃ more, next = first :: more) ∧ (∀ x ∈ next, P x) ∧ Q rest := by
    rintro _ input next rest step ⟨⟨more, rfl⟩, all, before⟩
    unfold separatedStep at step
    split at step
    · cases step
    · next behind found =>
      simp only [bind_eq_ok, pure_eq_ok, Option.some.injEq, Prod.mk.injEq] at step
      obtain ⟨⟨x, after⟩, one, rfl, rfl⟩ := step
      obtain ⟨new, left⟩ := each _ _ _ one (between _ _ found before)
      exact ⟨⟨more ++ [x], rfl⟩, List.forall_mem_append.mpr ⟨all, by simpa using new⟩, left⟩
  obtain ⟨⟨more, rfl⟩, all, last⟩ := iterate_invariant
    (P := fun read input => (∃ more, read = first :: more) ∧ (∀ x ∈ read, P x) ∧ Q input)
    kept read ⟨⟨[], rfl⟩, by simpa using holds, left⟩
  exact ⟨⟨first, more, remaining, rfl, one⟩, all, last⟩

theorem separated_items {P : α → Prop}
    (each : ∀ input x rest, item input = .ok (x, rest) → P x) {input rest : List τ}
    {items : List α} (read : separated separator item input = .ok (items, rest)) :
    items ≠ [] ∧ ∀ x ∈ items, P x := by
  obtain ⟨⟨first, more, _, rfl, -⟩, all, -⟩ := separated_invariant (P := P) (Q := fun _ => True)
    (fun _ _ _ one _ => ⟨each _ _ _ one, trivial⟩) (fun _ _ _ _ => trivial) read trivial
  exact ⟨by simp, all⟩

theorem intercalate_singleton (mark : τ) (first : List τ) (more : List (List τ)) :
    [mark].intercalate (first :: more) = first ++ more.flatMap (mark :: ·) := by
  induction more generalizing first with
  | nil => simp [List.intercalate]
  | cons second more ih =>
    rw [List.intercalate_cons_cons, ih, List.flatMap_cons]
    simp

/-- A list of which every item and the mark have a property that lists pass on. -/
theorem intercalate_induction {P : List τ → Prop} {mark : τ} {items : List (List τ)} (nil : P [])
    (append : ∀ first second, P first → P second → P (first ++ second)) (single : P [mark])
    (each : ∀ item ∈ items, P item) : P ([mark].intercalate items) := by
  have more : ∀ items : List (List τ), (∀ item ∈ items, P item) →
      P (items.flatMap (mark :: ·)) := by
    intro items
    induction items with
    | nil => exact fun _ => nil
    | cons item items ih =>
      intro each
      have inner := append _ _ single (each item (by simp))
      exact append _ _ inner (ih fun item member => each item (by simp [member]))
  cases items with
  | nil => exact nil
  | cons first items =>
    rw [intercalate_singleton]
    exact append _ _ (each first (by simp))
      (more items fun item member => each item (by simp [member]))

section Spelled
variable {κ β : Type} {kind : τ → κ} {write : α → List κ} {view : α → β} {mark : κ}
  {ts rest : List τ} {first : α} {more : List α}

/-- Items with a mark in front of each are read one after another, each up to what its view leaves
open. -/
theorem iterate_separated (Follows : List τ → Prop)
    (reads : ∀ x ∈ more, ∀ ts rest, ts.map kind = write x → Follows rest →
      ∃ y, view y = view x ∧ item (ts ++ rest) = .ok (y, rest))
    (marks : ∀ x ∈ more, ∀ t ts rest, kind t = mark → ts.map kind = write x →
      separator (t :: (ts ++ rest)) = some (ts ++ rest))
    (next : ∀ t rest, kind t = mark → Follows (t :: rest))
    (ends : separator rest = none) (last : Follows rest)
    (spelled : ts.map kind = more.flatMap (mark :: write ·)) (items : List α) :
    Follows (ts ++ rest) ∧ ∃ ys, ys.map view = more.map view ∧
      iterate (separatedStep separator item) items (ts ++ rest) = .ok (items ++ ys, rest) := by
  induction more generalizing ts items with
  | nil =>
    obtain rfl : ts = [] := List.map_eq_nil_iff.mp spelled
    refine ⟨last, [], rfl, ?_⟩
    rw [List.nil_append, List.append_nil]
    refine iterate_eq_ok ?_
    rw [separatedStep, ends]
    rfl
  | cons x more ih =>
    rw [List.flatMap_cons, List.cons_append, List.map_eq_cons_iff] at spelled
    obtain ⟨t, tail, rfl, isMark, spelled⟩ := spelled
    obtain ⟨one, others, rfl, spelledOne, spelled⟩ := List.map_eq_append_iff.mp spelled
    have later := fun y (member : y ∈ more) => List.mem_cons_of_mem x member
    have tail := ih (fun y member => reads y (later y member))
      (fun y member => marks y (later y member)) spelled
    obtain ⟨y, same, read⟩ := reads x (by simp) one (others ++ rest) spelledOne (tail []).1
    obtain ⟨ys, sameAll, readAll⟩ := (tail (items ++ [y])).2
    refine ⟨next _ _ isMark, y :: ys, by simp [same, sameAll], ?_⟩
    have step : separatedStep separator item items (t :: (one ++ (others ++ rest))) =
        .ok (some (items ++ [y], others ++ rest)) := by
      rw [separatedStep, marks x (by simp) t one _ isMark spelledOne]
      simp only [read]
      rfl
    have shorter : (others ++ rest).length < (t :: (one ++ (others ++ rest))).length := by
      simp only [List.length_cons, List.length_append]
      omega
    rw [List.cons_append, List.append_assoc, iterate_step step shorter, readAll,
      List.append_assoc, List.singleton_append]

/-- Items with a mark between each two are read back up to a view of them, if the mark separates
them and may follow each of them. -/
theorem separated_read (Follows : List τ → Prop)
    (reads : ∀ x ∈ first :: more, ∀ ts rest, ts.map kind = write x → Follows rest →
      ∃ y, view y = view x ∧ item (ts ++ rest) = .ok (y, rest))
    (marks : ∀ x ∈ more, ∀ t ts rest, kind t = mark → ts.map kind = write x →
      separator (t :: (ts ++ rest)) = some (ts ++ rest))
    (next : ∀ t rest, kind t = mark → Follows (t :: rest))
    (ends : separator rest = none) (last : Follows rest)
    (spelled : ts.map kind = [mark].intercalate ((first :: more).map write)) :
    ∃ ys, ys.map view = (first :: more).map view ∧
      separated separator item (ts ++ rest) = .ok (ys, rest) := by
  rw [List.map_cons, intercalate_singleton, List.flatMap_map] at spelled
  obtain ⟨one, others, rfl, spelledOne, spelled⟩ := List.map_eq_append_iff.mp spelled
  have tail := iterate_separated Follows (fun x member => reads x (by simp [member])) marks next
    ends last spelled
  obtain ⟨y, same, read⟩ := reads first (by simp) one _ spelledOne (tail []).1
  obtain ⟨ys, sameAll, readAll⟩ := (tail [y]).2
  refine ⟨y :: ys, by simp [same, sameAll], ?_⟩
  rw [List.append_assoc, separated_eq, read]
  exact readAll

end Spelled

/-- Items written with a mark between each two are read back, if the mark separates them and may
follow each of them. -/
theorem separated_written {write : α → List τ} {mark : τ} {rest : List τ} {first : α}
    {more : List α} (Follows : List τ → Prop)
    (reads : ∀ x ∈ first :: more, ∀ rest, Follows rest → item (write x ++ rest) = .ok (x, rest))
    (marks : ∀ rest, separator (mark :: rest) = some rest)
    (next : ∀ rest, Follows (mark :: rest))
    (ends : separator rest = none) (last : Follows rest) :
    separated separator item ([mark].intercalate ((first :: more).map write) ++ rest) =
      .ok (first :: more, rest) := by
  have written : ∀ x ∈ first :: more, ∀ ts rest, ts.map id = write x → Follows rest →
      ∃ y, id y = id x ∧ item (ts ++ rest) = .ok (y, rest) := by
    intro x member ts rest spelled follows
    rw [List.map_id] at spelled
    exact ⟨x, rfl, spelled ▸ reads x member rest follows⟩
  have spelled : ([mark].intercalate ((first :: more).map write)).map id =
      [mark].intercalate ((first :: more).map write) := List.map_id _
  obtain ⟨ys, same, read⟩ := separated_read Follows written
    (by rintro _ _ _ ts rest rfl _; exact marks (ts ++ rest))
    (by rintro _ rest rfl; exact next rest)
    ends last spelled
  rw [List.map_id, List.map_id] at same
  rw [read, same]

end DebugExpr.Parsing
