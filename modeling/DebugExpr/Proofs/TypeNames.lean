import Mathlib.Data.List.TakeDrop
import DebugExpr.Proofs.AssemblyNames
import DebugExpr.QualifiedName.Reader

/-! Type names, written and read back. Every name that is read has the parts that its written form
can state, and the written form of such a name, with no blank in it, reads as the same name. -/
namespace DebugExpr.QualifiedName
open Text Metadata Parsing

section Parts
variable {src : Source} {input rest : List Char}

/-- The input is over, or it goes on with one of the characters. -/
def Stops (marks input : List Char) : Prop :=
  ∀ c ∈ input.head?, c ∈ marks

theorem Stops.mono {marks more : List Char} (stops : Stops marks input)
    (among : marks ⊆ more) : Stops more input :=
  fun c head => among (stops c head)

theorem Stops.dropBlanks {marks : List Char} (stops : Stops marks input)
    (solid : ∀ c ∈ marks, isBlank c = false) : dropBlanks input = input :=
  dropBlanks_of_first fun c head => solid c (stops c head)

/-- What can follow a name. -/
def nameEnds : List Char := [',', '+', '[', ']', '*', '&', '\x60']

/-- What can follow a name and its arity. -/
def segmentEnds : List Char := [',', '+', '[', ']', '*', '&']

/-- What can follow a path of names. -/
def pathEnds : List Char := [',', '[', ']', '*', '&']

/-- What can follow a whole name without its assembly. -/
def specEnds : List Char := [',', ']']

theorem solid_pathEnds : ∀ c ∈ pathEnds, isBlank c = false := by
  intro c mark
  simp only [pathEnds, List.mem_cons, List.not_mem_nil, or_false] at mark
  rcases mark with rfl | rfl | rfl | rfl | rfl <;> rfl

theorem solid_specEnds : ∀ c ∈ specEnds, isBlank c = false :=
  fun c mark => solid_pathEnds c ((by decide : specEnds ⊆ pathEnds) mark)

theorem takeName_stops (stops : Stops nameEnds rest) : takeName rest = .ok ([], rest) := by
  cases rest with
  | nil => rfl
  | cons c rest =>
    have mark : c ∈ nameEnds := stops c rfl
    simp only [nameEnds, List.mem_cons, List.not_mem_nil, or_false] at mark
    rcases mark with rfl | rfl | rfl | rfl | rfl | rfl | rfl <;> rfl

theorem takeName_escaped (c : Char) :
    takeName ('\\' :: c :: input) = (do
      let (name, rest) ← takeName input
      return (c :: name, rest)) := by
  rw [takeName]

theorem takeName_unescaped {c : Char} (other : c ≠ '\\') :
    takeName (c :: input) =
      if isMeta c || isBlank c then .ok ([], c :: input)
      else do
        let (name, rest) ← takeName input
        return (c :: name, rest) :=
  takeName.eq_4 _ _ (fun same => absurd same other) fun _ _ same => absurd same other

theorem takeName_ordinary {c : Char} (ordinary : isMeta c = false) (solid : isBlank c = false) :
    takeName (c :: input) = (do
      let (name, rest) ← takeName input
      return (c :: name, rest)) := by
  have other : c ≠ '\\' := by
    rintro rfl
    exact absurd ordinary (by decide)
  rw [takeName_unescaped other]
  simp [ordinary, solid]

/-- Escapes are taken away again. -/
theorem takeName_escape {name : List Char} (solid : ∀ c ∈ name, isBlank c = false)
    (stops : Stops nameEnds rest) : takeName (escape name ++ rest) = .ok (name, rest) := by
  induction name with
  | nil => exact takeName_stops stops
  | cons c name ih =>
    have read := ih fun d member => solid d (by simp [member])
    rw [escape]
    split
    · rw [List.cons_append, List.cons_append, takeName_escaped, read]
      rfl
    · rename_i ordinary
      rw [List.cons_append, takeName_ordinary (by simpa using ordinary) (solid c (by simp)), read]
      rfl

/-- A written name starts with no blank and with no character that ends a name. -/
theorem escape_head {name : List Char} (named : name ≠ [])
    (solid : ∀ c ∈ name, isBlank c = false) :
    ∃ c tail, escape name = c :: tail ∧ isBlank c = false ∧ (c = '\\' ∨ isMeta c = false) := by
  cases name with
  | nil => exact absurd rfl named
  | cons c name =>
    rw [escape]
    split
    · exact ⟨'\\', _, rfl, by decide, .inl rfl⟩
    · rename_i ordinary
      exact ⟨c, _, rfl, solid c (by simp), .inr (by simpa using ordinary)⟩

/-- The names that a path can state. -/
structure Segment.Readable (s : Segment) : Prop where
  named : s.name.toList ≠ []
  small : s.arity ≤ maxSegmentArity

/-- No character of the name is a blank. -/
def Segment.spaceless (s : Segment) : Bool :=
  s.name.toList.all fun c => !isBlank c

theorem Segment.solid {s : Segment} (spaceless : s.spaceless = true) :
    ∀ c ∈ s.name.toList, isBlank c = false := by
  simpa [Segment.spaceless] using spaceless

/-- The backtick and the arity behind a name. -/
def arityMark (arity : Nat) : List Char :=
  if arity = 0 then [] else '\x60' :: Nat.toDigits 10 arity

theorem arityMark_stops {arity : Nat} (stops : Stops segmentEnds rest) :
    Stops nameEnds (arityMark arity ++ rest) := by
  unfold arityMark
  split
  · exact stops.mono (by decide)
  · rintro d ⟨⟩
    decide

theorem toList_segment (s : Segment) :
    s.written.toList = escape s.name.toList ++ arityMark s.arity := by
  have text (s : String) : toString s = s := rfl
  unfold Segment.written arityMark
  split <;> simp [String.toList_append, text]

theorem takeArity_stops (stops : Stops segmentEnds rest) : takeArity src rest = .ok (0, rest) := by
  cases rest with
  | nil => rfl
  | cons c rest =>
    have mark : c ∈ segmentEnds := stops c rfl
    simp only [segmentEnds, List.mem_cons, List.not_mem_nil, or_false] at mark
    rcases mark with rfl | rfl | rfl | rfl | rfl | rfl <;> rfl

theorem takeArity_mark {arity : Nat} (small : arity ≤ maxSegmentArity)
    (stops : Stops segmentEnds rest) :
    takeArity src (arityMark arity ++ rest) = .ok (arity, rest) := by
  unfold arityMark
  split
  · rename_i zero
    rw [zero]
    exact takeArity_stops stops
  · have digits : ∀ c ∈ Nat.toDigits 10 arity, c.isDigit = true := fun c member =>
      Nat.isDigit_of_mem_toDigits (by decide) (by decide) member
    have after : ∀ c ∈ rest.head?, c.isDigit = false := by
      have marks : ∀ c ∈ segmentEnds, c.isDigit = false := by simp [segmentEnds]
      exact fun c head => marks c (stops c head)
    have none : rest.takeWhile Char.isDigit = [] ∧ rest.dropWhile Char.isDigit = rest := by
      cases rest with
      | nil => exact ⟨rfl, rfl⟩
      | cons c rest => simp [after c rfl]
    rw [List.cons_append, takeArity, List.takeWhile_append_of_pos digits,
      List.dropWhile_append_of_pos digits, none.1, none.2, List.append_nil, decimal_toDigits]
    have : 1 ≤ arity ∧ arity ≤ maxSegmentArity := ⟨by omega, small⟩
    simp [this]

theorem takeSegment_written {s : Segment} (readable : s.Readable)
    (spaceless : s.spaceless = true) (stops : Stops segmentEnds rest) :
    takeSegment src (s.written.toList ++ rest) = .ok (s, rest) := by
  have solid := Segment.solid spaceless
  obtain ⟨c, tail, head, firstSolid, -⟩ := escape_head readable.named solid
  have front : dropBlanks (s.written.toList ++ rest) = s.written.toList ++ rest := by
    rw [toList_segment, head]
    refine dropBlanks_of_first ?_
    rintro d ⟨⟩
    exact firstSolid
  have ends : Stops nameEnds (arityMark s.arity ++ rest) := arityMark_stops stops
  have named : s.name.toList.isEmpty = false := by
    simpa using readable.named
  simp only [takeSegment, front]
  rw [toList_segment, List.append_assoc, takeName_escape solid ends]
  simp only [bind, Except.bind, named, takeArity_mark readable.small stops]
  simp [pure, Except.pure]

theorem takePath_written {path : List Segment} (nonempty : path ≠ [])
    (readable : ∀ s ∈ path, s.Readable) (spaceless : ∀ s ∈ path, s.spaceless = true)
    (stops : Stops pathEnds rest) :
    takePath src (("+".intercalate (path.map Segment.written)).toList ++ rest) =
      .ok (path, rest) := by
  cases path with
  | nil => exact absurd rfl nonempty
  | cons first more =>
    rw [String.toList_intercalate, List.map_map]
    refine separated_written (Stops segmentEnds)
      (fun s member rest stops =>
        takeSegment_written (readable s member) (spaceless s member) stops)
      (fun rest => rfl) ?_ ?_ (stops.mono (by decide))
    · rintro rest c ⟨⟩
      decide
    · split
      · have := stops '+' rfl
        exact absurd this (by decide)
      · rfl

/-- The suffixes that can be stated. -/
def Suffix.Readable : Suffix → Prop
  | .array rank => 1 ≤ rank ∧ rank ≤ maxRank
  | .pointer | .byRef => True

theorem takeRank_commas (rank more : Nat) (within : rank + more ≤ maxRank) :
    takeRank src rank (List.replicate more ',' ++ ']' :: rest) = .ok (rank + more, rest) := by
  induction more generalizing rank with
  | zero =>
    have close : isBlank ']' = false := by decide
    simp only [List.replicate_zero, List.nil_append, takeRank, close]
    simp [show rank ≤ maxRank from within]
  | succ more ih =>
    have comma : isBlank ',' = false := by decide
    have read := ih (rank + 1) (by omega)
    rw [show rank + 1 + more = rank + (more + 1) by omega] at read
    simp only [List.replicate_succ, List.cons_append, takeRank, comma]
    simpa using read

theorem takeArray_brackets {rank : Nat} (readable : 1 ≤ rank ∧ rank ≤ maxRank) :
    takeArray src (List.replicate (rank - 1) ',' ++ ']' :: rest) = .ok (rank, rest) := by
  have read : takeRank src 1 (List.replicate (rank - 1) ',' ++ ']' :: rest) =
      .ok (1 + (rank - 1), rest) :=
    takeRank_commas 1 (rank - 1) (by omega)
  rw [show 1 + (rank - 1) = rank by omega] at read
  have front : Stops specEnds (List.replicate (rank - 1) ',' ++ ']' :: rest) := by
    cases rank - 1 with
    | zero =>
      rintro c ⟨⟩
      decide
    | succ more =>
      rintro c ⟨⟩
      decide
  rw [takeArray, front.dropBlanks solid_specEnds]
  split
  · rename_i same
    rw [same] at front
    exact absurd (front '*' rfl) (by decide)
  · exact read

theorem takeSuffixes_written {suffixes : List Suffix} (readable : ∀ s ∈ suffixes, s.Readable)
    (stops : Stops specEnds rest) :
    takeSuffixes src ((String.join (suffixes.map Suffix.written)).toList ++ rest) =
      .ok (suffixes, rest) := by
  rw [String.toList_join, List.flatMap_map]
  unfold takeSuffixes
  refine iterate_written (fun _ => True) (fun suffix member items rest _ => ?_) ?_
    (fun _ _ _ => trivial) (fun items => ?_) trivial []
  · cases suffix with
    | array rank =>
      have written : (Suffix.array rank).written.toList ++ rest =
          '[' :: (List.replicate (rank - 1) ',' ++ ']' :: rest) := by
        simp [Suffix.written, rankBrackets]
      have front : dropBlanks ('[' :: (List.replicate (rank - 1) ',' ++ ']' :: rest)) =
        '[' :: (List.replicate (rank - 1) ',' ++ ']' :: rest) := rfl
      rw [written]
      simp only [front, takeArray_brackets (readable _ member)]
      rfl
    | pointer => rfl
    | byRef => rfl
  · intro suffix _
    cases suffix with
    | array rank => simp [Suffix.written, rankBrackets]
    | pointer => decide
    | byRef => decide
  · rw [stops.dropBlanks solid_specEnds]
    split
    · exact absurd (stops '*' rfl) (by decide)
    · exact absurd (stops '&' rfl) (by decide)
    · exact absurd (stops '[' rfl) (by decide)
    · rfl

/-- The places that can be stated. -/
def Origin.Readable : Origin → Prop
  | .assembly reference => reference.Readable
  | .inModule _ => False
  | .unqualified => True

/-- What stands behind a name to state its place. -/
def Origin.ending : Origin → List Char
  | .assembly reference => ',' :: ' ' :: reference.display.toList
  | _ => []

theorem takeOrigin_ending {origin : Origin} (readable : origin.Readable) :
    takeOrigin false origin.ending = .ok (origin, []) ∧
      takeOrigin true (origin.ending ++ ']' :: rest) = .ok (origin, ']' :: rest) := by
  cases origin with
  | unqualified => exact ⟨rfl, rfl⟩
  | inModule => exact readable.elim
  | assembly reference =>
    have whole : trim (' ' :: reference.display.toList) = reference.display.toList := by
      rw [trim_space, trim_of_trimmed (Assembly.Reference.display_trimmed readable)]
    have read := Assembly.Reference.parse_display readable
    have inside : ∀ c ∈ ' ' :: reference.display.toList, (c != ']') = true := by
      have free := Assembly.Reference.display_unbracketed readable
      intro c member
      rcases List.mem_cons.mp member with rfl | member
      · decide
      · exact bne_iff_ne.mpr fun same => free (same ▸ member)
    have cut : (' ' :: reference.display.toList ++ ']' :: rest).span (· != ']') =
        (' ' :: reference.display.toList, ']' :: rest) := by
      rw [List.span_eq_takeWhile_dropWhile, List.takeWhile_append_of_pos inside,
        List.dropWhile_append_of_pos inside]
      simp
    have front (cs : List Char) : dropBlanks (',' :: cs) = ',' :: cs := rfl
    constructor
    · simp only [Origin.ending, takeOrigin, front, Bool.false_eq_true, if_false, whole,
        String.ofList_toList, read]
    · simp only [Origin.ending, takeOrigin, List.cons_append, front, if_true]
      rw [List.cons_append] at cut
      simp only [cut, whole, String.ofList_toList, read]

theorem expect_here {mark : Char} (solid : isBlank mark = false) :
    src.expect mark (mark :: rest) = .ok rest := by
  have front : dropBlanks (mark :: rest) = mark :: rest :=
    dropBlanks_of_first fun c head => by cases head; exact solid
  simp [Source.expect, front]

theorem opensArguments_bracket {c : Char} (solid : isBlank c = false)
    (begins : c ≠ ']' ∧ c ≠ ',' ∧ c ≠ '*') : opensArguments ('[' :: c :: rest) = true := by
  have front : dropBlanks (c :: rest) = c :: rest :=
    dropBlanks_of_first fun d head => by cases head; exact solid
  simp [opensArguments, front, begins]

end Parts

/-- The names that can be stated, given which arguments can be. -/
structure Shaped (arg : QualifiedName → Prop) (t : QualifiedName) : Prop where
  someName : t.path ≠ []
  path : ∀ s ∈ t.path, s.Readable
  counted : t.args.length = pathArity t.path
  args : ∀ a ∈ t.args, arg a
  suffixes : ∀ s ∈ t.suffixes, s.Readable
  origin : t.origin.Readable

/-- The names that can be stated with arguments on so many levels. -/
def Readable : Nat → QualifiedName → Prop
  | 0, _ => False
  | levels + 1, t => Shaped (Readable levels) t

mutual

/-- No name holds a blank, on any level. -/
def spaceless : QualifiedName → Bool
  | ⟨path, args, _, _⟩ => path.all Segment.spaceless && allSpaceless args

def allSpaceless : List QualifiedName → Bool
  | [] => true
  | t :: rest => spaceless t && allSpaceless rest

end

theorem allSpaceless_iff (args : List QualifiedName) :
    allSpaceless args = true ↔ ∀ a ∈ args, a.spaceless = true := by
  induction args with
  | nil => simp [allSpaceless]
  | cons a args ih => simp [allSpaceless, ih]

theorem spaceless_iff (t : QualifiedName) : t.spaceless = true ↔
    (∀ s ∈ t.path, s.spaceless = true) ∧ ∀ a ∈ t.args, a.spaceless = true := by
  rcases t with ⟨path, args, suffixes, origin⟩
  rw [spaceless, Bool.and_eq_true, List.all_eq_true, allSpaceless_iff]

/-- The written argument. -/
def writtenArg (a : QualifiedName) : List Char :=
  (a.origin.qualifyArg a.written).toList

theorem toList_writtenArgs (args : List QualifiedName) :
    (writtenArgs args).map String.toList = args.map writtenArg := by
  induction args with
  | nil => rfl
  | cons a args ih =>
    rcases a with ⟨path, inner, suffixes, origin⟩
    rw [writtenArgs, List.map_cons, List.map_cons, ih, writtenArg]

theorem toList_written (t : QualifiedName) : t.written.toList =
    ("+".intercalate (t.path.map Segment.written)).toList ++
      ((if t.args.isEmpty then [] else '[' :: ([','].intercalate (t.args.map writtenArg) ++ [']'])) ++
        (String.join (t.suffixes.map Suffix.written)).toList) := by
  rcases t with ⟨path, args, suffixes, origin⟩
  rw [written, String.toList_append, String.toList_append, List.append_assoc]
  congr 2
  split
  · rfl
  · rw [String.toList_append, String.toList_append, String.toList_intercalate,
      toList_writtenArgs]
    rfl

section Levels
variable {src : Source} {rest : List Char} {a t : QualifiedName}
  {spec : List Char → Except Error (QualifiedName × List Char)}

/-- A name without its place. -/
def unplaced (t : QualifiedName) : QualifiedName :=
  { t with origin := .unqualified }

/-- The first character of a written name is part of a name or escapes one. -/
def Begins (input : List Char) : Prop :=
  ∃ c tail, input = c :: tail ∧ isBlank c = false ∧ (c = '\\' ∨ isMeta c = false)

theorem Begins.append {input : List Char} (begins : Begins input) (rest : List Char) :
    Begins (input ++ rest) := by
  obtain ⟨c, tail, rfl, solid, kind⟩ := begins
  exact ⟨c, tail ++ rest, rfl, solid, kind⟩

theorem Begins.ne {c mark : Char} (kind : c = '\\' ∨ isMeta c = false) (special : isMeta mark = true)
    (other : mark ≠ '\\') : c ≠ mark := by
  rintro rfl
  rcases kind with rfl | ordinary
  · exact other rfl
  · rw [special] at ordinary
    cases ordinary

theorem written_begins (nonempty : t.path ≠ []) (readable : ∀ s ∈ t.path, s.Readable)
    (spaceless : t.spaceless = true) : Begins t.written.toList := by
  rw [toList_written]
  apply Begins.append
  obtain ⟨solid, -⟩ := (spaceless_iff t).mp spaceless
  cases path : t.path with
  | nil => exact absurd path nonempty
  | cons first more =>
    have member : first ∈ t.path := by simp [path]
    rw [String.toList_intercalate, List.map_cons, List.map_cons, toList_segment]
    have := escape_head (readable first member).named (Segment.solid (solid first member))
    have begins : Begins (escape first.name.toList) := this
    change Begins (['+'].intercalate _)
    rw [intercalate_singleton, List.append_assoc]
    exact begins.append _

/-- How a name without its assembly is read back, given the levels of arguments that are left. -/
def ReadsBack (spec : List Char → Except Error (QualifiedName × List Char)) (t : QualifiedName) :
    Prop :=
  ∀ rest, Stops specEnds rest → spec (t.written.toList ++ rest) = .ok (t.unplaced, rest)

theorem takeArgument_written (begins : Begins a.written.toList) (readable : a.origin.Readable)
    (reads : ReadsBack spec a) (stops : Stops specEnds rest) :
    takeArgument src spec (writtenArg a ++ rest) = .ok (a, rest) := by
  rcases a with ⟨path, args, suffixes, origin⟩
  cases origin with
  | inModule => exact readable.elim
  | unqualified =>
    obtain ⟨c, tail, head, solid, kind⟩ := begins
    have front : dropBlanks (c :: (tail ++ rest)) = c :: (tail ++ rest) :=
      dropBlanks_of_first fun d head => by cases head; exact solid
    have other : c ≠ '[' := Begins.ne kind (by decide) (by decide)
    have read := reads rest stops
    change takeArgument src spec ((written ⟨path, args, suffixes, .unqualified⟩).toList ++ rest) = _
    rw [head, List.cons_append] at read ⊢
    simp only [takeArgument, front]
    split
    · rename_i same
      exact absurd (List.cons.inj same).1 other
    · exact read
  | assembly reference =>
    have text (s : String) : toString s = s := rfl
    have split : writtenArg ⟨path, args, suffixes, .assembly reference⟩ ++ rest =
        '[' :: ((written ⟨path, args, suffixes, .assembly reference⟩).toList ++
          ((Origin.assembly reference).ending ++ ']' :: rest)) := by
      simp [writtenArg, Origin.qualifyArg, Origin.ending, String.toList_append, text]
    have front (cs : List Char) : dropBlanks ('[' :: cs) = '[' :: cs := rfl
    have after : Stops specEnds ((Origin.assembly reference).ending ++ ']' :: rest) := by
      rintro c ⟨⟩
      decide
    rw [split]
    simp only [takeArgument, front, reads _ after, bind, Except.bind,
      (takeOrigin_ending readable).2]
    rw [expect_here (by decide)]
    rfl

theorem takeArguments_written {args : List QualifiedName} (nonempty : args ≠ [])
    (begins : ∀ a ∈ args, Begins a.written.toList) (readable : ∀ a ∈ args, a.origin.Readable)
    (reads : ∀ a ∈ args, ReadsBack spec a) :
    takeArguments src spec ([','].intercalate (args.map writtenArg) ++ ']' :: rest) =
      .ok (args, rest) := by
  cases args with
  | nil => exact absurd rfl nonempty
  | cons first more =>
    unfold takeArguments
    refine bind_eq_ok.mpr ⟨(first :: more, ']' :: rest), ?_, ?_⟩
    · refine separated_written (Stops specEnds)
        (fun a member rest stops => takeArgument_written (begins a member) (readable a member)
          (reads a member) stops)
        (fun rest => rfl) ?_ rfl ?_
      · rintro rest c ⟨⟩
        decide
      · rintro c ⟨⟩
        decide
    · exact bind_eq_ok.mpr ⟨rest, expect_here (by decide), rfl⟩

/-- The written arguments start none of the array suffixes. -/
theorem opensArguments_written {args : List QualifiedName} (nonempty : args ≠ [])
    (begins : ∀ a ∈ args, Begins a.written.toList) :
    opensArguments ('[' :: ([','].intercalate (args.map writtenArg) ++ rest)) = true := by
  cases args with
  | nil => exact absurd rfl nonempty
  | cons first more =>
    rw [List.map_cons, intercalate_singleton, List.append_assoc]
    have start : Begins first.written.toList := begins first (by simp)
    rcases first with ⟨path, args, suffixes, origin⟩
    cases origin with
    | assembly reference =>
      have text (s : String) : toString s = s := rfl
      simp only [writtenArg, Origin.qualifyArg, String.toList_append, text]
      exact opensArguments_bracket (by decide) (by decide)
    | inModule | unqualified =>
      obtain ⟨c, tail, head, solid, kind⟩ := start
      simp only [writtenArg, Origin.qualifyArg]
      rw [head]
      exact opensArguments_bracket solid ⟨Begins.ne kind (by decide) (by decide),
        Begins.ne kind (by decide) (by decide), Begins.ne kind (by decide) (by decide)⟩

theorem suffixes_stop (suffixes : List Suffix) (stops : Stops specEnds rest) :
    Stops pathEnds ((String.join (suffixes.map Suffix.written)).toList ++ rest) := by
  rw [String.toList_join, List.flatMap_map]
  cases suffixes with
  | nil => exact stops.mono (by decide)
  | cons suffix more =>
    rw [List.flatMap_cons, List.append_assoc]
    cases suffix with
    | array rank =>
      simp only [Suffix.written, rankBrackets, String.toList_ofList]
      rintro c ⟨⟩
      decide
    | pointer | byRef =>
      rintro c ⟨⟩
      decide

theorem Readable.shaped {levels : Nat} (readable : Readable levels t) :
    ∃ arg, Shaped arg t := by
  cases levels with
  | zero => exact readable.elim
  | succ levels => exact ⟨_, readable⟩

private theorem ite_bind {ε α β : Type} {condition : Prop} [Decidable condition]
    {x y : Except ε α} {f : α → Except ε β} :
    (if condition then x >>= f else y >>= f) = (if condition then x else y) >>= f := by
  split <;> rfl

/-- A name is read in three parts: its path, its arguments if it has an arity, and its suffixes. -/
theorem takeSpec_eq_ok {levels : Nat} {input : List Char} :
    takeSpec src (levels + 1) input = .ok (t, rest) ↔
      ∃ path after args afterArgs suffixes,
        takePath src input = .ok (path, after) ∧
        (if pathArity path > 0 && opensArguments (dropBlanks after) then
          takeArguments src (takeSpec src levels) (dropBlanks after).tail
        else .ok ([], dropBlanks after)) = .ok (args, afterArgs) ∧
        args.length = pathArity path ∧
        takeSuffixes src afterArgs = .ok (suffixes, rest) ∧
        t = ⟨path, args, suffixes, .unqualified⟩ := by
  constructor
  · intro read
    rw [takeSpec] at read
    obtain ⟨⟨path, after⟩, pathRead, read⟩ := bind_eq_ok.mp read
    dsimp only at read
    rw [ite_bind] at read
    obtain ⟨⟨args, afterArgs⟩, argsRead, read⟩ := bind_eq_ok.mp read
    dsimp only at read
    split at read
    · cases read
    · rename_i counted
      obtain ⟨⟨suffixes, afterSuffixes⟩, suffixesRead, read⟩ := bind_eq_ok.mp read
      cases read
      exact ⟨path, after, args, afterArgs, suffixes, pathRead, argsRead, by omega, suffixesRead,
        rfl⟩
  · rintro ⟨path, after, args, afterArgs, suffixes, pathRead, argsRead, counted, suffixesRead, rfl⟩
    rw [takeSpec]
    refine bind_eq_ok.mpr ⟨_, pathRead, ?_⟩
    dsimp only
    rw [ite_bind]
    refine bind_eq_ok.mpr ⟨_, argsRead, ?_⟩
    dsimp only
    rw [if_neg (by omega)]
    exact bind_eq_ok.mpr ⟨_, suffixesRead, rfl⟩

theorem takeSpec_written {levels : Nat} (readable : Readable levels t)
    (spaceless : t.spaceless = true) : ReadsBack (takeSpec src levels) t := by
  induction levels generalizing t with
  | zero => exact readable.elim
  | succ levels ih =>
    intro rest stops
    obtain ⟨solidPath, solidArgs⟩ := (spaceless_iff t).mp spaceless
    have shaped : Shaped (Readable levels) t := readable
    have begins : ∀ a ∈ t.args, Begins a.written.toList := by
      intro a member
      obtain ⟨_, arg⟩ := (shaped.args a member).shaped
      exact written_begins arg.someName arg.path (solidArgs a member)
    have origins : ∀ a ∈ t.args, a.origin.Readable := by
      intro a member
      obtain ⟨_, arg⟩ := (shaped.args a member).shaped
      exact arg.origin
    have reads : ∀ a ∈ t.args, ReadsBack (takeSpec src levels) a := fun a member =>
      ih (shaped.args a member) (solidArgs a member)
    have ends := suffixes_stop t.suffixes stops
    have suffixes : takeSuffixes src ((String.join (t.suffixes.map Suffix.written)).toList ++ rest) =
        .ok (t.suffixes, rest) :=
      takeSuffixes_written shaped.suffixes stops
    rw [toList_written, List.append_assoc, List.append_assoc, takeSpec_eq_ok]
    generalize (String.join (t.suffixes.map Suffix.written)).toList ++ rest = after
      at ends suffixes
    have counted := shaped.counted
    by_cases none : t.args = []
    · simp only [none, List.isEmpty_nil, if_true, List.nil_append]
      rw [none, List.length_nil] at counted
      refine ⟨t.path, after, [], after, t.suffixes,
        takePath_written shaped.someName shaped.path solidPath ends, ?_, counted, suffixes, ?_⟩
      · rw [ends.dropBlanks solid_pathEnds, ← counted]
        rfl
      · rw [unplaced, none]
    · have nonempty : t.args.isEmpty = false := by simpa using none
      have bracket (cs : List Char) : Stops pathEnds ('[' :: cs) := by
        rintro c ⟨⟩
        decide
      have positive : pathArity t.path > 0 := by
        rw [← counted]
        exact List.length_pos_iff.mpr none
      simp only [nonempty, Bool.false_eq_true, if_false, List.cons_append, List.append_assoc,
        List.nil_append]
      refine ⟨t.path, _, t.args, after, t.suffixes,
        takePath_written shaped.someName shaped.path solidPath (bracket _), ?_, counted, suffixes,
        rfl⟩
      rw [(bracket _).dropBlanks solid_pathEnds, opensArguments_written none begins,
        decide_eq_true positive]
      exact takeArguments_written none begins origins reads

end Levels

section Reading
variable {src : Source} {input rest : List Char} {t : QualifiedName}

theorem takeArity_small {arity : Nat} (read : takeArity src input = .ok (arity, rest)) :
    arity ≤ maxSegmentArity := by
  unfold takeArity at read
  split at read
  · split at read
    · split at read
      · rename_i range
        cases read
        exact range.2
      · cases read
    · cases read
  · cases read
    exact Nat.zero_le _

theorem takeSegment_readable {s : Segment} (read : takeSegment src input = .ok (s, rest)) :
    s.Readable := by
  unfold takeSegment at read
  obtain ⟨⟨name, afterName⟩, -, read⟩ := bind_eq_ok.mp read
  dsimp only at read
  split at read
  · cases read
  · rename_i named
    obtain ⟨⟨arity, afterArity⟩, arityRead, read⟩ := bind_eq_ok.mp read
    cases read
    exact ⟨by simpa using named, takeArity_small arityRead⟩

theorem takePath_readable {path : List Segment} (read : takePath src input = .ok (path, rest)) :
    path ≠ [] ∧ ∀ s ∈ path, s.Readable :=
  separated_items (P := Segment.Readable) (fun _ _ _ => takeSegment_readable) read

theorem takeRank_readable {rank result : Nat} (positive : 1 ≤ rank)
    (read : takeRank src rank input = .ok (result, rest)) : 1 ≤ result ∧ result ≤ maxRank := by
  induction input generalizing rank with
  | nil => cases read
  | cons c input ih =>
    rw [takeRank] at read
    split at read
    · exact ih positive read
    · split at read
      · exact ih (Nat.le_succ_of_le positive) read
      · split at read
        · split at read
          · rename_i within
            cases read
            exact ⟨positive, within⟩
          · cases read
        · cases read

theorem takeArray_readable {rank : Nat} (read : takeArray src input = .ok (rank, rest)) :
    1 ≤ rank ∧ rank ≤ maxRank := by
  unfold takeArray at read
  split at read
  · obtain ⟨after, -, read⟩ := bind_eq_ok.mp read
    cases read
    decide
  · exact takeRank_readable (Nat.le_refl 1) read

theorem takeSuffixes_readable {suffixes : List Suffix}
    (read : takeSuffixes src input = .ok (suffixes, rest)) : ∀ s ∈ suffixes, s.Readable := by
  refine iterate_keeps (P := fun suffixes => ∀ s ∈ suffixes, s.Readable) ?_ read (by simp)
  intro suffixes input next rest step all
  have add {suffix : Suffix} (one : suffix.Readable) :
      ∀ s ∈ suffixes ++ [suffix], s.Readable := by
    intro s member
    rcases List.mem_append.mp member with before | new
    · exact all s before
    · rw [List.mem_singleton.mp new]
      exact one
  split at step
  · cases step
    exact add trivial
  · cases step
    exact add trivial
  · obtain ⟨⟨rank, after⟩, rankRead, step⟩ := bind_eq_ok.mp step
    cases step
    exact add (takeArray_readable rankRead)
  · cases step

theorem takeOrigin_readable {inArgument : Bool} {origin : Origin}
    (read : takeOrigin inArgument input = .ok (origin, rest)) : origin.Readable := by
  unfold takeOrigin at read
  split at read
  · dsimp only at read
    split at read
    · rename_i reference parsed
      cases read
      exact Assembly.Reference.readable_of_parse parsed
    · cases read
  · cases read
    trivial

theorem Readable.place {levels : Nat} {origin : Origin} (readable : Readable levels t)
    (placed : origin.Readable) : Readable levels { t with origin } := by
  cases levels with
  | zero => exact readable.elim
  | succ levels =>
    have shaped : Shaped (Readable levels) t := readable
    exact { shaped with origin := placed }

theorem takeArgument_readable {levels : Nat}
    {spec : List Char → Except Error (QualifiedName × List Char)}
    (each : ∀ input t rest, spec input = .ok (t, rest) → Readable levels t)
    (read : takeArgument src spec input = .ok (t, rest)) : Readable levels t := by
  unfold takeArgument at read
  split at read
  · obtain ⟨⟨name, afterName⟩, nameRead, read⟩ := bind_eq_ok.mp read
    obtain ⟨⟨origin, afterOrigin⟩, originRead, read⟩ := bind_eq_ok.mp read
    obtain ⟨after, -, read⟩ := bind_eq_ok.mp read
    cases read
    exact (each _ _ _ nameRead).place (takeOrigin_readable originRead)
  · exact each _ _ _ read

theorem takeArguments_readable {levels : Nat} {args : List QualifiedName}
    {spec : List Char → Except Error (QualifiedName × List Char)}
    (each : ∀ input t rest, spec input = .ok (t, rest) → Readable levels t)
    (read : takeArguments src spec input = .ok (args, rest)) : ∀ a ∈ args, Readable levels a := by
  unfold takeArguments at read
  obtain ⟨⟨items, afterItems⟩, itemsRead, read⟩ := bind_eq_ok.mp read
  obtain ⟨after, -, read⟩ := bind_eq_ok.mp read
  cases read
  exact (separated_items (P := Readable levels)
    (fun _ _ _ => takeArgument_readable each) itemsRead).2

theorem takeSpec_readable {levels : Nat} (read : takeSpec src levels input = .ok (t, rest)) :
    Readable levels t := by
  induction levels generalizing input t rest with
  | zero => cases read
  | succ levels ih =>
    obtain ⟨path, after, args, afterArgs, suffixes, pathRead, argsRead, counted, suffixesRead, rfl⟩ :=
      takeSpec_eq_ok.mp read
    obtain ⟨someName, segments⟩ := takePath_readable pathRead
    refine ⟨someName, segments, counted, ?_, takeSuffixes_readable suffixesRead, trivial⟩
    split at argsRead
    · exact takeArguments_readable (fun _ _ _ => ih) argsRead
    · cases argsRead
      simp

theorem readable_of_parse {text : String} {maxDepth : Nat} (read : parse text maxDepth = .ok t) :
    Readable maxDepth t := by
  obtain ⟨⟨name, afterName⟩, nameRead, read⟩ := bind_eq_ok.mp read
  obtain ⟨⟨origin, after⟩, originRead, read⟩ := bind_eq_ok.mp read
  dsimp only at read
  split at read
  · cases read
    exact (takeSpec_readable nameRead).place (takeOrigin_readable originRead)
  · cases read

theorem toList_display (placed : t.origin.Readable) :
    t.display.toList = t.written.toList ++ t.origin.ending := by
  have text (s : String) : toString s = s := rfl
  rcases t with ⟨path, args, suffixes, origin⟩
  cases origin with
  | inModule => exact placed.elim
  | unqualified => simp [display, Origin.qualify, Origin.ending]
  | assembly reference =>
    simp [display, Origin.qualify, Origin.ending, String.toList_append, text]

/-- The written form of a name that can be stated is read as that name. -/
theorem parse_written {levels : Nat} (readable : Readable levels t)
    (spaceless : t.spaceless = true) : parse t.display levels = .ok t := by
  obtain ⟨_, shaped⟩ := readable.shaped
  have ends : Stops specEnds t.origin.ending := by
    cases t.origin with
    | assembly reference =>
      rintro c ⟨⟩
      decide
    | inModule | unqualified => rintro c ⟨⟩
  unfold parse
  rw [toList_display shaped.origin]
  refine bind_eq_ok.mpr ⟨_, takeSpec_written readable spaceless _ ends, ?_⟩
  refine bind_eq_ok.mpr ⟨_, (@takeOrigin_ending [] _ shaped.origin).1, ?_⟩
  cases t
  rfl

/-- What was read from a text, with no blank in any name, is read again from its written form. -/
theorem display_reads_back {text : String} {maxDepth : Nat} (read : parse text maxDepth = .ok t)
    (spaceless : t.spaceless = true) : parse t.display maxDepth = .ok t :=
  parse_written (readable_of_parse read) spaceless

/-- A name with escapes, blanks, a star in brackets, nested arguments and a short version. -/
def sampleText : String :=
  " Ns.Map\x601+Entry\x601[ [List\x601[A\\+B[*]], mscorlib , Version=4.0], C & ][ , ]*, Lib"

theorem sampleText_reads_back : ∃ t, parse sampleText 3 = .ok t ∧ t.spaceless = true ∧
    t.display = "Ns.Map\x601+Entry\x601[[List\x601[A\\+B[]], mscorlib, Version=4.0.0.0, " ++
      "Culture=neutral, PublicKeyToken=null],C&][,]*, Lib, Culture=neutral, PublicKeyToken=null" ∧
    parse t.display 3 = .ok t := by
  obtain ⟨t, read, spaceless, written⟩ := exists_ok_of_any (x := parse sampleText 3)
    (p := fun t => t.spaceless = true ∧ t.display =
      "Ns.Map\x601+Entry\x601[[List\x601[A\\+B[]], mscorlib, Version=4.0.0.0, " ++
        "Culture=neutral, PublicKeyToken=null],C&][,]*, Lib, Culture=neutral, PublicKeyToken=null")
    (by decide +kernel)
  exact ⟨t, read, spaceless, written, display_reads_back read spaceless⟩

end Reading

end DebugExpr.QualifiedName
