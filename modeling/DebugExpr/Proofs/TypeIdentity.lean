import DebugExpr.Proofs.BoundTerms
import DebugExpr.Proofs.WellFormedTypes

/-! Types that are the same. Sameness looks at modules, tokens and arguments, and not at what a
definition holds. It is transitive, and well-formed types of one snapshot that are the same are
equal. -/
namespace DebugExpr.Metadata

namespace ClosedType

mutual

theorem same_trans : {t u v : ClosedType} → same t u = true → same u v = true → same t v = true
  | .named .., .named .., .named .., first, second => by
    simp only [same, Bool.and_eq_true, beq_iff_eq] at first second ⊢
    exact ⟨⟨first.1.1.trans second.1.1, first.1.2.trans second.1.2⟩,
      sameAll_trans first.2 second.2⟩
  | .array .., .array .., .array .., first, second => by
    simp only [same, Bool.and_eq_true, beq_iff_eq] at first second ⊢
    exact ⟨same_trans first.1 second.1, first.2.trans second.2⟩

theorem sameAll_trans : {ts us vs : List ClosedType} → sameAll ts us = true →
    sameAll us vs = true → sameAll ts vs = true
  | [], [], [], _, _ => rfl
  | _ :: _, _ :: _, _ :: _, first, second => by
    simp only [sameAll, Bool.and_eq_true] at first second ⊢
    exact ⟨same_trans first.1 second.1, sameAll_trans first.2 second.2⟩

end

theorem beq_trans {t u v : ClosedType} (first : (t == u) = true) (second : (u == v) = true) :
    (t == v) = true :=
  same_trans first second

theorem sameAll_eq_beq (ts us : List ClosedType) : sameAll ts us = (ts == us) := by
  induction ts generalizing us with
  | nil => cases us <;> rfl
  | cons t ts ih =>
    cases us with
    | nil => rfl
    | cons u us =>
      rw [List.cons_beq_cons, sameAll, ih]
      rfl

/-- Lists of types are the same if they are so place by place. -/
theorem beq_of_getElem? {ts us : List ClosedType} (length : ts.length = us.length)
    (each : ∀ (index : Nat) (t u : ClosedType), ts[index]? = some t → us[index]? = some u →
      (t == u) = true) :
    (ts == us) = true := by
  induction ts generalizing us with
  | nil =>
    obtain rfl := List.eq_nil_of_length_eq_zero length.symm
    rfl
  | cons t ts ih =>
    obtain ⟨u, us, rfl⟩ := List.exists_cons_of_length_eq_add_one length.symm
    rw [List.cons_beq_cons, Bool.and_eq_true]
    exact ⟨each 0 t u rfl rfl,
      ih (Nat.succ.inj length) fun index => each (index + 1)⟩

/-- Lists of types that are the same are equal if that holds of their members. -/
theorem eq_of_sameAll {P : ClosedType → Prop} {ts us : List ClosedType}
    (each : ∀ t ∈ ts, ∀ u, P u → (t == u) = true → t = u) (others : ∀ u ∈ us, P u)
    (same : sameAll ts us = true) : ts = us := by
  induction ts generalizing us with
  | nil =>
    cases us with
    | nil => rfl
    | cons u us => cases same
  | cons t ts ih =>
    cases us with
    | nil => cases same
    | cons u us =>
      rw [List.forall_mem_cons] at each others
      rw [sameAll, Bool.and_eq_true] at same
      rw [each.1 u others.1 same.1, ih each.2 others.2 same.2]

end ClosedType

namespace Snapshot
variable {s : Snapshot}

/-- Of well-formed types of one snapshot those that are the same are equal: their definitions are
what the module has under one token. -/
theorem WellFormed.eq_of_same {t : ClosedType} (first : s.WellFormed t) :
    ∀ u, s.WellFormed u → (t == u) = true → t = u := by
  induction first with
  | @named home d args stored _ _ ih =>
    rintro _ (⟨stored', _, others⟩ | _) same
    · obtain ⟨⟨rfl, token⟩, all⟩ : (_ = _ ∧ _ = _) ∧ ClosedType.sameAll _ _ = true := by
        simpa [BEq.beq, ClosedType.same] using same
      obtain ⟨m, loaded, found⟩ := stored
      obtain ⟨m', loaded', found'⟩ := stored'
      cases loaded.symm.trans loaded'
      rw [token] at found
      cases found.symm.trans found'
      rw [ClosedType.eq_of_sameAll ih others all]
    · cases same
  | @array element rank _ ih =>
    rintro _ (_ | ⟨inner⟩) same
    · cases same
    · obtain ⟨elements, rfl⟩ : ClosedType.same element _ = true ∧ rank = _ := by
        simpa [BEq.beq, ClosedType.same] using same
      rw [ih _ inner elements]

end Snapshot

end DebugExpr.Metadata
