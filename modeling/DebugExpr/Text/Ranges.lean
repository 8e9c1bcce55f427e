/-! Sets of characters given by ranges of code points, the form in which the properties of a
character are tabulated. The tables of this library follow Unicode 17.0. -/
namespace DebugExpr.Text

/-- Code point ranges, each by its first and its last member. -/
abbrev Ranges := List (Nat × Nat)

namespace Ranges

/-- Some range of the table contains the character. -/
def holds (ranges : Ranges) (c : Char) : Bool :=
  ranges.any fun range => decide (range.1 ≤ c.toNat) && decide (c.toNat ≤ range.2)

theorem holds_iff (ranges : Ranges) (c : Char) :
    ranges.holds c = true ↔ ∃ range ∈ ranges, range.1 ≤ c.toNat ∧ c.toNat ≤ range.2 := by
  simp [holds]

/-- Tables whose ranges lie apart have no character in common. -/
theorem disjoint_of_apart {first second : Ranges}
    (apart : (first.all fun r => second.all fun s => decide (r.2 < s.1 ∨ s.2 < r.1)) = true)
    {c : Char} (inFirst : first.holds c = true) : second.holds c = false := by
  rw [Bool.eq_false_iff]
  intro inSecond
  obtain ⟨r, member, least, greatest⟩ := (holds_iff ..).mp inFirst
  obtain ⟨s, member', least', greatest'⟩ := (holds_iff ..).mp inSecond
  have := of_decide_eq_true (List.all_eq_true.mp (List.all_eq_true.mp apart r member) s member')
  omega

end Ranges

/-- Code points of the ASCII letters. -/
theorem toNat_of_isAlpha {c : Char} (letter : c.isAlpha = true) :
    65 ≤ c.toNat ∧ c.toNat ≤ 122 := by
  rcases (Bool.or_eq_true c.isUpper c.isLower).mp letter with upper | lower
  · obtain ⟨least, greatest⟩ := of_decide_eq_true upper
    exact ⟨least, Nat.le_trans greatest (by decide)⟩
  · obtain ⟨least, greatest⟩ := (Bool.and_eq_true _ _).mp lower
    exact ⟨Nat.le_trans (by decide) (of_decide_eq_true least), of_decide_eq_true greatest⟩

/-- Code points of the ASCII digits. -/
theorem toNat_of_isDigit {c : Char} (digit : c.isDigit = true) : 48 ≤ c.toNat ∧ c.toNat ≤ 57 := by
  obtain ⟨least, greatest⟩ := (Bool.and_eq_true _ _).mp digit
  exact ⟨of_decide_eq_true least, of_decide_eq_true greatest⟩

end DebugExpr.Text
