/-! Cutting a text at a separator, at its first or at its last occurrence. -/
namespace DebugExpr.Text

/-- The parts before and after the first separator. -/
def cutFirst (sep : Char) (cs : List Char) : Option (List Char × List Char) :=
  match cs.dropWhile (· != sep) with
  | [] => none
  | _ :: after => some (cs.takeWhile (· != sep), after)

/-- The parts before and after the last separator. -/
def cutLast (sep : Char) (cs : List Char) : Option (List Char × List Char) :=
  (cutFirst sep cs.reverse).map fun (after, before) => (before.reverse, after.reverse)

theorem eq_append_of_cutFirst {sep : Char} {cs before after : List Char}
    (h : cutFirst sep cs = some (before, after)) : cs = before ++ sep :: after := by
  unfold cutFirst at h
  split at h
  · simp at h
  · rename_i c rest hr
    have hc : (c != sep) = false := by
      have := List.head?_dropWhile_not (· != sep) cs
      simpa [hr] using this
    simp only [Option.some.injEq, Prod.mk.injEq] at h
    obtain ⟨rfl, rfl⟩ := h
    have key := List.takeWhile_append_dropWhile (p := (· != sep)) (l := cs)
    rw [hr] at key
    rw [bne_eq_false_iff_eq.mp hc] at key
    exact key.symm

end DebugExpr.Text
