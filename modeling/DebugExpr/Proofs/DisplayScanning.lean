import DebugExpr.Proofs.Subexpressions
import DebugExpr.Proofs.TypeReading

/-! Displays of written types, scanned. `ScansAs` says which tokens a text has, whatever was scanned
before it. A display has no blanks between its tokens but the one behind a comma, so each token has
to end by itself where the next begins. It does, unless a name is a reserved word, of which the
display shows no at sign. -/
namespace DebugExpr.Source
open Text Metadata Parsing

/-- Behind any blanks the input is scanned as tokens of these kinds. -/
def ScansAs (input : List Char) (kinds : List TokenKind) : Prop :=
  ∀ length tokens behind, dropBlanks behind = dropBlanks input →
    ∃ tokens' left, iterate (scanStep length) tokens behind = .ok (tokens', left) ∧
      tokens'.map (·.kind) = kinds.reverse ++ tokens.map (·.kind)

/-- The input is over or goes on with a mark that can stand behind a type. -/
def TypeEnds (rest : List Char) : Prop :=
  ∀ c ∈ rest.head?, c ∈ ['>', ',', '[']

/-- The input is over or goes on with a mark that can stand behind a name in a type. -/
def NameEnds (rest : List Char) : Prop :=
  ∀ c ∈ rest.head?, c ∈ ['>', ',', '[', '?', '.', '<']

section Scanning
variable {input rest : List Char} {kinds : List TokenKind} {k : TokenKind}

theorem TypeEnds.nameEnds (ends : TypeEnds rest) : NameEnds rest :=
  fun c head => (by decide : ['>', ',', '['] ⊆ ['>', ',', '[', '?', '.', '<']) (ends c head)

theorem NameEnds.breaks (ends : NameEnds rest) : Breaks isNamePart rest := by
  have marks : ['>', ',', '[', '?', '.', '<'].all (!isNamePart ·) = true := by decide
  exact fun c head => by simpa using List.all_eq_true.mp marks c (ends c head)

theorem NameEnds.noColons (ends : NameEnds rest) : beforeColons rest = false := by
  have marks : ['>', ',', '[', '?', '.', '<'].all (fun c => !isBlank c && ':' != c) = true := by
    decide
  cases rest with
  | nil => rfl
  | cons c rest =>
    obtain ⟨solid, other⟩ : isBlank c = false ∧ ':' ≠ c := by
      simpa using List.all_eq_true.mp marks c (ends c rfl)
    rw [beforeColons, dropBlanks, List.dropWhile_cons_of_neg (by simp [solid])]
    simp [List.isPrefixOf, other]

theorem nameEnds_of_mark {c : Char} (mark : c ∈ ['>', ',', '[', '?', '.', '<']) :
    NameEnds (c :: rest) := by
  rintro _ ⟨⟩
  exact mark

theorem typeEnds_of_mark {c : Char} (mark : c ∈ ['>', ',', '[']) : TypeEnds (c :: rest) := by
  rintro _ ⟨⟩
  exact mark

theorem scansAs_nil : ScansAs [] [] := by
  intro length tokens behind same
  refine ⟨tokens, behind, iterate_eq_ok ?_, rfl⟩
  rw [scanStep, same]
  rfl

theorem ScansAs.blank (scans : ScansAs input kinds) : ScansAs (' ' :: input) kinds :=
  fun length tokens behind same => scans length tokens behind same

/-- Behind blanks a token comes first. -/
theorem ScansAs.token (scans : ScansAs rest kinds) {c : Char} {tail : List Char}
    (front : dropBlanks input = c :: tail) (shorter : rest.length ≤ tail.length)
    (token : ∀ length, scanToken length c tail = .ok (k, rest)) : ScansAs input (k :: kinds) := by
  intro length tokens behind same
  have step : scanStep length tokens behind =
      .ok (some (⟨k, positionOf length (c :: tail)⟩ :: tokens, rest)) := by
    rw [scanStep, same, front]
    simp only [token]
    rfl
  have less : rest.length < behind.length := by
    have dropped := dropBlanks_length_le behind
    rw [same, front, List.length_cons] at dropped
    omega
  obtain ⟨tokens', left, read, kept⟩ := scans length
    (⟨k, positionOf length (c :: tail)⟩ :: tokens) rest rfl
  refine ⟨tokens', left, (iterate_step step less).trans read, ?_⟩
  rw [kept, List.map_cons, List.reverse_cons, List.append_assoc, List.singleton_append]

/-- A token that ends where the rest begins is scanned first. -/
theorem ScansAs.cons (scans : ScansAs rest kinds) (reads : ∀ length, ReadsBack length k rest) :
    ScansAs (k.spell ++ rest) (k :: kinds) := by
  obtain ⟨c, tail, split, solid, -, -⟩ := reads 0
  refine scans.token (?_ : _ = c :: (tail ++ rest)) (by simp) fun length => ?_
  · rw [split, List.cons_append, dropBlanks, List.dropWhile_cons_of_neg (by simp [solid])]
  · obtain ⟨c', tail', split', -, -, scanned⟩ := reads length
    obtain ⟨rfl, rfl⟩ := List.cons.inj (split.symm.trans split')
    exact scanned

theorem scan_of_scansAs {text : String} (scans : ScansAs text.toList kinds) :
    ∃ scanned, scan text = .ok scanned ∧ scanned.tokens.map (·.kind) = kinds := by
  obtain ⟨tokens, left, read, same⟩ := scans text.toList.length [] text.toList rfl
  refine ⟨⟨tokens.reverse, text.toList.length⟩, ?_, ?_⟩
  · rw [scan_eq, read]
    rfl
  · rw [List.map_reverse, same, List.map_nil, List.append_nil, List.reverse_reverse]

/-- A name that is no reserved word is scanned before any of the marks behind it. -/
theorem ScansAs.name (scans : ScansAs rest kinds) {name : String} (isName : IsName name.toList)
    (free : isReserved name = false) (ends : NameEnds rest) :
    ScansAs (name.toList ++ rest) (.identifier name :: kinds) := by
  have read := scans.cons (k := .identifier name) fun _ =>
    scan_identifier isName ends.breaks fun _ => ends.noColons
  rwa [spell_free free] at read

theorem ScansAs.typeKeyword (scans : ScansAs rest kinds) {type : Primitive}
    (word : type.keyword?.isSome = true) (ends : NameEnds rest) :
    ScansAs (type.display.toList ++ rest) (.typeKeyword type :: kinds) := by
  refine scans.cons (k := .typeKeyword type) fun _ => ?_
  cases type <;>
    first
      | exact scan_word rfl rfl rfl (kindOfWord_typeKeyword rfl) ends.breaks
      | cases word

/-- The marks in types that no character behind them continues. -/
def singleMark? : Char → Option Mark
  | '<' => some .less
  | '>' => some .greater
  | ',' => some .comma
  | '.' => some .dot
  | '[' => some .openBracket
  | ']' => some .closeBracket
  | _ => none

theorem ScansAs.mark (scans : ScansAs rest kinds) {c : Char} {sign : Mark}
    (single : singleMark? c = some sign) : ScansAs (c :: rest) (.mark sign :: kinds) := by
  have spelled : (TokenKind.mark sign).spell = [c] ∧
      ∀ length, ReadsBack length (.mark sign) rest := by
    unfold singleMark? at single
    split at single <;> cases single <;>
      exact ⟨rfl, fun _ => ⟨_, _, rfl, rfl, by decide, rfl⟩⟩
  have read := scans.cons spelled.2
  rwa [spelled.1] at read

theorem ScansAs.question (scans : ScansAs rest kinds) (ends : TypeEnds rest) :
    ScansAs ('?' :: rest) (.mark .question :: kinds) := by
  refine scans.cons (k := .mark .question) fun _ => ?_
  cases rest with
  | nil => exact ⟨_, _, rfl, rfl, by decide, rfl⟩
  | cons c rest =>
    have marks := ends c rfl
    simp only [List.mem_cons, List.not_mem_nil, or_false] at marks
    rcases marks with rfl | rfl | rfl <;> exact ⟨_, _, rfl, rfl, by decide, rfl⟩

/-- The word `global` and the double colon behind it. -/
theorem ScansAs.global (scans : ScansAs rest kinds) :
    ScansAs ("global::".toList ++ rest) (.global :: .mark .doubleColon :: kinds) := by
  have colons : ScansAs (':' :: ':' :: rest) (.mark .doubleColon :: kinds) :=
    scans.cons (k := .mark .doubleColon) fun _ => ⟨_, _, rfl, rfl, by decide, rfl⟩
  exact colons.cons (k := .global) fun _ =>
    scan_word rfl rfl rfl (kindOfWord_global rfl) (by rintro _ ⟨⟩; rfl)

end Scanning

namespace TypeExpr

/-- No name in the type is a reserved word behind an at sign. -/
def Unreserved (t : TypeExpr) : Prop :=
  ∀ path ∈ t.paths, ∀ part ∈ path, isReserved part.1 = false

theorem unreserved_named {isGlobal : Bool} {segments : List (String × List TypeExpr)} :
    (named isGlobal segments).Unreserved ↔ (∀ s ∈ segments, isReserved s.1 = false) ∧
      ∀ s ∈ segments, ∀ t ∈ s.2, t.Unreserved := by
  rw [Unreserved, paths, List.forall_mem_cons, List.forall_mem_map, pathsOfSegments_eq]
  refine and_congr Iff.rfl ?_
  simp only [List.forall_mem_flatMap]
  rfl

theorem displayAll_eq (ts : List TypeExpr) : displayAll ts = ts.map display := by
  induction ts with
  | nil => rfl
  | cons t rest ih => rw [displayAll, ih, List.map_cons]

/-- One part of a dotted name with its type arguments. -/
def displaySegment (segment : String × List TypeExpr) : String :=
  segment.1 ++
    if segment.2.isEmpty then "" else "<" ++ ", ".intercalate (segment.2.map display) ++ ">"

theorem displaySegments_eq (segments : List (String × List TypeExpr)) :
    displaySegments segments = segments.map displaySegment := by
  induction segments with
  | nil => rfl
  | cons segment rest ih =>
    rw [displaySegments, ih, displayAll_eq, List.map_cons, displaySegment]

/-- The display is scanned as the tokens of the type, in any place where a type can stand. -/
def DisplayScans (ends : List Char → Prop) (t : TypeExpr) : Prop :=
  ∀ rest kinds, ends rest → ScansAs rest kinds →
    ScansAs (t.display.toList ++ rest) (t.tokens ++ kinds)

section Displays
variable {rest : List Char} {kinds : List TokenKind}

/-- Type arguments up to their closing bracket. -/
theorem scansAs_args {args : List TypeExpr} (nonempty : args ≠ [])
    (each : ∀ t ∈ args, t.DisplayScans TypeEnds) (scans : ScansAs rest kinds) :
    ScansAs ((", ".intercalate (args.map display)).toList ++ '>' :: rest)
      (commas (args.map tokens) ++ .mark .greater :: kinds) := by
  have close : ScansAs ('>' :: rest) (.mark .greater :: kinds) := scans.mark rfl
  have comma : ", ".toList = [',', ' '] := rfl
  rw [String.toList_intercalate, comma, List.map_map, commas]
  induction args with
  | nil => exact absurd rfl nonempty
  | cons t more ih =>
    have first := each t (by simp)
    cases more with
    | nil => simpa [List.intercalate] using first _ _ (typeEnds_of_mark (by decide)) close
    | cons second more =>
      have further := ih (by simp) fun t member => each t (by simp [member])
      have between := further.blank.mark (c := ',') rfl
      have whole := first _ _ (typeEnds_of_mark (by decide)) between
      rw [List.map_cons, List.map_cons, List.map_cons, List.map_cons, List.intercalate_cons_cons,
        List.intercalate_cons_cons]
      simpa [List.append_assoc] using whole

theorem scansAs_segment {segment : String × List TypeExpr} (isName : IsName segment.1.toList)
    (free : isReserved segment.1 = false) (each : ∀ t ∈ segment.2, t.DisplayScans TypeEnds)
    (ends : NameEnds rest) (scans : ScansAs rest kinds) :
    ScansAs ((displaySegment segment).toList ++ rest) (segmentTokens segment ++ kinds) := by
  obtain ⟨name, args⟩ := segment
  rw [displaySegment, segmentTokens, argTokens]
  cases args with
  | nil => simpa [angled] using scans.name isName free ends
  | cons first more =>
    have inner := scansAs_args (List.cons_ne_nil first more) each scans
    have opened := inner.mark (c := '<') rfl
    have whole := opened.name isName free (nameEnds_of_mark (by decide))
    rw [List.map_cons] at whole
    simpa [angled, String.toList_append, List.append_assoc] using whole

theorem scansAs_segments {segments : List (String × List TypeExpr)} (nonempty : segments ≠ [])
    (isName : ∀ s ∈ segments, IsName s.1.toList) (free : ∀ s ∈ segments, isReserved s.1 = false)
    (each : ∀ s ∈ segments, ∀ t ∈ s.2, t.DisplayScans TypeEnds) (ends : NameEnds rest)
    (scans : ScansAs rest kinds) :
    ScansAs ((".".intercalate (segments.map displaySegment)).toList ++ rest)
      ([.mark .dot].intercalate (segments.map segmentTokens) ++ kinds) := by
  have dot : ".".toList = ['.'] := rfl
  rw [String.toList_intercalate, dot, List.map_map]
  induction segments with
  | nil => exact absurd rfl nonempty
  | cons segment more ih =>
    rw [List.forall_mem_cons] at isName free each
    cases more with
    | nil =>
      simpa [List.intercalate] using scansAs_segment isName.1 free.1 each.1 ends scans
    | cons second more =>
      have further := ih (by simp) isName.2 free.2 each.2
      have whole := scansAs_segment isName.1 free.1 each.1 (nameEnds_of_mark (by decide))
        (further.mark (c := '.') rfl)
      rw [List.map_cons, List.map_cons, List.map_cons, List.map_cons, List.intercalate_cons_cons,
        List.intercalate_cons_cons]
      simpa [List.append_assoc] using whole

theorem scansAs_brackets {rank : Nat} (scans : ScansAs rest kinds) :
    ScansAs ((rankBrackets rank).toList ++ rest)
      (.mark .openBracket ::
        (List.replicate (rank - 1) (.mark .comma) ++ .mark .closeBracket :: kinds)) := by
  have commas (count : Nat) : ScansAs (List.replicate count ',' ++ ']' :: rest)
      (List.replicate count (.mark .comma) ++ .mark .closeBracket :: kinds) := by
    induction count with
    | zero => exact scans.mark rfl
    | succ count ih => exact ih.mark rfl
  have whole := (commas (rank - 1)).mark (c := '[') rfl
  rw [rankBrackets, String.toList_ofList]
  simpa using whole

end Displays

/-- The display of a type is scanned as its tokens: before any mark that a type goes on with if it
has no marks of its own, and where a type ends in any case. -/
theorem Readable.displayScans {t : TypeExpr} (readable : t.Readable)
    (free : t.Unreserved) :
    (t.isHead = true → t.DisplayScans NameEnds) ∧ t.DisplayScans TypeEnds := by
  have both {t : TypeExpr} (scans : t.DisplayScans NameEnds) :
      (t.isHead = true → t.DisplayScans NameEnds) ∧ t.DisplayScans TypeEnds :=
    ⟨fun _ => scans, fun rest kinds ends => scans rest kinds ends.nameEnds⟩
  induction readable with
  | keyword word =>
    refine both fun rest kinds ends scans => ?_
    exact scans.typeKeyword word ends
  | @named isGlobal segments nonempty names first args ih =>
    obtain ⟨freeName, freeArgs⟩ := unreserved_named.mp free
    have each : ∀ s ∈ segments, ∀ t ∈ s.2, t.DisplayScans TypeEnds := fun s member t inside =>
      (ih s member t inside (freeArgs s member t inside)).2
    refine both fun rest kinds ends scans => ?_
    have dotted := scansAs_segments nonempty names freeName each ends scans
    rw [display, displaySegments_eq, tokens_named]
    cases isGlobal with
    | false => simpa using dotted
    | true => simpa [List.append_assoc] using dotted.global
  | @nullable inner head readable ih =>
    refine ⟨by simp [isHead], fun rest kinds ends scans => ?_⟩
    have whole := (ih free).1 head _ _ (nameEnds_of_mark (by decide)) (scans.question ends)
    simpa [display, tokens] using whole
  | @array element rank positive readable ih =>
    refine ⟨by simp [isHead], fun rest kinds ends scans => ?_⟩
    have bracket : TypeEnds ((rankBrackets rank).toList ++ rest) := by
      rw [rankBrackets, String.toList_ofList]
      exact typeEnds_of_mark (by decide)
    have whole := (ih free).2 _ _ bracket (scansAs_brackets scans)
    simpa [display, tokens] using whole

/-- The display of a type is scanned as its tokens. -/
theorem Readable.scan_display {t : TypeExpr} (readable : t.Readable)
    (free : t.Unreserved) :
    ∃ scanned, scan t.display = .ok scanned ∧ scanned.tokens.map (·.kind) = t.tokens := by
  have scans := (readable.displayScans free).2 [] [] nofun scansAs_nil
  rw [List.append_nil, List.append_nil] at scans
  exact scan_of_scansAs scans

end TypeExpr

end DebugExpr.Source
