/-! Comparison that ignores the case of the ASCII letters and of no others. -/
namespace DebugExpr.Text

/-- The text with its ASCII capitals made small. -/
def lower (s : String) : String :=
  String.ofList (s.toList.map Char.toLower)

/-- Equal up to the case of ASCII letters. -/
def sameCaseless (a b : String) : Bool :=
  lower a == lower b

theorem sameCaseless_iff (a b : String) : sameCaseless a b = true ↔ lower a = lower b := by
  simp [sameCaseless]

@[simp] theorem sameCaseless_refl (a : String) : sameCaseless a a = true := by
  simp [sameCaseless]

theorem sameCaseless_symm {a b : String} (h : sameCaseless a b = true) :
    sameCaseless b a = true := by
  rw [sameCaseless_iff] at *
  exact h.symm

theorem sameCaseless_trans {a b c : String} (ab : sameCaseless a b = true)
    (bc : sameCaseless b c = true) : sameCaseless a c = true := by
  rw [sameCaseless_iff] at *
  exact ab.trans bc

end DebugExpr.Text
