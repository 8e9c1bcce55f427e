import DebugExpr.Proofs.TypeNames

/-! Names with any characters, written and read. Writing escapes the characters with a meaning of
their own. It escapes no blanks, though these end a name as well: so a written name is read back
just if there is no blank in it. -/
namespace DebugExpr.QualifiedName
open Text

section Written
variable {src : Source} {rest : List Char}

theorem isBlank_of_isMeta {c : Char} (special : isMeta c = true) : isBlank c = false := by
  simp only [isMeta, Bool.or_eq_true, beq_iff_eq] at special
  rcases special with ((((((rfl | rfl) | rfl) | rfl) | rfl) | rfl) | rfl) | rfl <;> rfl

theorem solid_nameEnds : ∀ c ∈ nameEnds, isBlank c = false := by
  intro c mark
  simp only [nameEnds, List.mem_cons, List.not_mem_nil, or_false] at mark
  rcases mark with rfl | rfl | rfl | rfl | rfl | rfl | rfl <;> rfl

theorem escape_blank {c : Char} {name : List Char} (blank : isBlank c = true) :
    escape (c :: name) = c :: escape name := by
  have ordinary : isMeta c ≠ true := fun special => by
    rw [isBlank_of_isMeta special] at blank
    cases blank
  rw [escape, if_neg ordinary]

/-- Of a written name the blanks in front are dropped, which are those of the name itself. -/
theorem dropBlanks_escape (name : List Char) (solid : dropBlanks rest = rest) :
    dropBlanks (escape name ++ rest) = escape (dropBlanks name) ++ rest := by
  induction name with
  | nil => exact solid
  | cons c name ih =>
    cases blank : isBlank c with
    | true =>
      rw [escape_blank blank, List.cons_append, dropBlanks, List.dropWhile_cons_of_pos blank,
        dropBlanks, List.dropWhile_cons_of_pos blank]
      exact ih
    | false =>
      have front : dropBlanks (c :: name) = c :: name :=
        dropBlanks_of_first fun d head => by cases head; exact blank
      obtain ⟨d, tail, head, dSolid⟩ : ∃ d tail, escape (c :: name) = d :: tail ∧
          isBlank d = false := by
        rw [escape]
        split
        · exact ⟨'\\', _, rfl, rfl⟩
        · exact ⟨c, _, rfl, blank⟩
      rw [front, head]
      exact dropBlanks_of_first fun e first => by cases first; exact dSolid

theorem takeName_blank {c : Char} {input : List Char} (blank : isBlank c = true) :
    takeName (c :: input) = .ok ([], c :: input) := by
  have other : c ≠ '\\' := by
    rintro rfl
    exact absurd blank (by decide)
  rw [takeName_unescaped other]
  simp [blank]

/-- What is read of a written name holds no blank: none is escaped, so the first one ends it. -/
theorem takeName_escape_solid {name read after : List Char} (stops : Stops nameEnds rest)
    (taken : takeName (escape name ++ rest) = .ok (read, after)) :
    ∀ c ∈ read, isBlank c = false := by
  induction name generalizing read with
  | nil =>
    have none : takeName (escape [] ++ rest) = .ok ([], rest) := takeName_stops stops
    cases none.symm.trans taken
    simp
  | cons c name ih =>
    have further (solid : isBlank c = false)
        (one : (takeName (escape name ++ rest) >>= fun found => pure (c :: found.1, found.2)) =
          Except.ok (read, after)) : ∀ c ∈ read, isBlank c = false := by
      simp only [bind_eq_ok, pure_eq_ok, Prod.mk.injEq] at one
      obtain ⟨⟨more, _⟩, again, rfl, rfl⟩ := one
      exact List.forall_mem_cons.mpr ⟨solid, ih again⟩
    rw [escape] at taken
    split at taken
    · next special =>
      rw [List.cons_append, List.cons_append, takeName_escaped] at taken
      exact further (isBlank_of_isMeta special) taken
    · next ordinary =>
      rw [Bool.not_eq_true] at ordinary
      rw [List.cons_append] at taken
      cases blank : isBlank c with
      | true =>
        rw [takeName_blank blank] at taken
        cases taken
        simp
      | false =>
        rw [takeName_ordinary ordinary blank] at taken
        exact further blank taken

/-- A name with its arity is read back from its written form, and no more than that, just if there
is no blank in the name. Any other character may stand in the name, also first. -/
theorem segment_reads_back_iff {s : Segment} (readable : s.Readable)
    (stops : Stops segmentEnds rest) :
    takeSegment src (s.written.toList ++ rest) = .ok (s, rest) ↔ s.spaceless = true := by
  refine ⟨fun read => ?_, fun spaceless => takeSegment_written readable spaceless stops⟩
  have ends : Stops nameEnds (arityMark s.arity ++ rest) := arityMark_stops stops
  have front := dropBlanks_escape s.name.toList (ends.dropBlanks solid_nameEnds)
  rw [toList_segment, List.append_assoc, takeSegment, front] at read
  obtain ⟨⟨name, after⟩, taken, read⟩ := bind_eq_ok.mp read
  have solid := takeName_escape_solid ends taken
  dsimp only at read
  split at read
  · cases read
  · obtain ⟨⟨arity, afterArity⟩, -, read⟩ := bind_eq_ok.mp read
    cases read
    simpa [Segment.spaceless] using solid

/-- A name of characters with a meaning, also first and last, around one that is not ASCII. -/
def awkwardSegment : Segment :=
  ⟨"[,\\λ\x60*", maxSegmentArity⟩

theorem awkwardSegment_reads_back : awkwardSegment.Readable ∧ Stops segmentEnds ['['] ∧
    takeSegment ⟨18, defaultMaxDepth⟩ (awkwardSegment.written.toList ++ ['[']) =
      .ok (awkwardSegment, ['[']) := by
  have readable : awkwardSegment.Readable := ⟨by decide, by decide⟩
  have stops : Stops segmentEnds ['['] := by
    rintro c ⟨⟩
    decide
  exact ⟨readable, stops, (segment_reads_back_iff readable stops).mpr (by decide +kernel)⟩

/-- An escaped blank stands in the name that is read, and is not escaped where the name is written. -/
theorem escaped_blank_not_read_back :
    (∃ t, parse "A\\ B" = .ok t ∧ t.path = [⟨"A B", 0⟩] ∧ t.display = "A B") ∧
    (⟨"A B", 0⟩ : Segment).Readable ∧
    takeSegment ⟨3, defaultMaxDepth⟩ ((⟨"A B", 0⟩ : Segment).written.toList ++ []) ≠
      .ok (⟨"A B", 0⟩, []) := by
  have read : takeSegment ⟨3, defaultMaxDepth⟩ ((⟨"A B", 0⟩ : Segment).written.toList ++ []) =
      .ok (⟨"A", 0⟩, [' ', 'B']) := rfl
  refine ⟨exists_ok_of_any (by decide +kernel), ⟨by decide, by decide⟩, ?_⟩
  rw [read]
  simp

end Written
end DebugExpr.QualifiedName
