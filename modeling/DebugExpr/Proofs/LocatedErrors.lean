import DebugExpr.Proofs.ReadingErrors
import DebugExpr.Proofs.TypeNames

/-! Where a type name is wrong. The readers of this module are those of type names, with failures
that keep the input that was left, as a reader does that moves a position along the text. Without
what was left they are the same readers. An error with a position points at a character that is
wrong, and the end of the text is reported as unexpected only where nothing is left. -/
namespace DebugExpr.QualifiedName
open Text Parsing

variable {α β : Type}

/-- An error, and the input that was left where it was found. -/
structure Fault where
  error : Error
  left : List Char

/-- Forgets what was left. -/
def forget (x : Except Fault α) : Except Error α :=
  x.mapError Fault.error

namespace Located

/-- Fails with the input left that is given. -/
def leaving (left : List Char) (x : Except Error α) : Except Fault α :=
  x.mapError fun e => ⟨e, left⟩

def expect (src : Source) (c : Char) (input : List Char) : Except Fault (List Char) :=
  leaving (dropBlanks input) (src.expect c input)

def name : List Char → Except Fault (List Char × List Char)
  | [] => .ok ([], [])
  | ['\\'] => .error ⟨.unexpectedEnd, []⟩
  | '\\' :: c :: rest => do
    let (name, rest) ← name rest
    return (c :: name, rest)
  | c :: rest =>
    if isMeta c || isBlank c then .ok ([], c :: rest)
    else do
      let (name, rest) ← name rest
      return (c :: name, rest)

/-- The digits behind the backtick are passed before their number is looked at. -/
def arity (src : Source) (input : List Char) : Except Fault (Nat × List Char) :=
  leaving (input.tail.dropWhile Char.isDigit) (takeArity src input)

def segment (src : Source) (input : List Char) : Except Fault (Segment × List Char) := do
  let input := dropBlanks input
  let (name, rest) ← name input
  if name.isEmpty then
    throw ⟨if rest.isEmpty then .unexpectedEnd else .emptyName (src.position input), rest⟩
  let (arity, rest) ← arity src rest
  return (⟨String.ofList name, arity⟩, rest)

def path (src : Source) : List Char → Except Fault (List Segment × List Char) :=
  separated (fun | '+' :: rest => some rest | _ => none) (segment src)

def rank (src : Source) (count : Nat) : List Char → Except Fault (Nat × List Char)
  | [] => .error ⟨.unexpectedEnd, []⟩
  | c :: rest =>
    if isBlank c then rank src count rest
    else if c = ',' then rank src (count + 1) rest
    else if c = ']' then
      if count ≤ maxRank then .ok (count, rest) else .error ⟨.badRank count, rest⟩
    else .error ⟨src.unexpected (c :: rest), c :: rest⟩

def array (src : Source) (input : List Char) : Except Fault (Nat × List Char) :=
  match dropBlanks input with
  | '*' :: rest => do
    let rest ← expect src ']' rest
    return (1, rest)
  | input => rank src 1 input

def suffixes (src : Source) : List Char → Except Fault (List Suffix × List Char) :=
  iterate
    (fun suffixes input =>
      match dropBlanks input with
      | '*' :: rest => .ok (some (suffixes ++ [.pointer], rest))
      | '&' :: rest => .ok (some (suffixes ++ [.byRef], rest))
      | '[' :: rest => do
        let (rank, rest) ← array src rest
        return some (suffixes ++ [.array rank], rest)
      | _ => .ok none)
    []

/-- The text of the assembly is passed before it is read. -/
def origin (inArgument : Bool) (input : List Char) : Except Fault (Origin × List Char) :=
  leaving (if inArgument then (dropBlanks input).tail.dropWhile (· != ']') else [])
    (takeOrigin inArgument input)

def argument (src : Source) (spec : List Char → Except Fault (QualifiedName × List Char))
    (input : List Char) : Except Fault (QualifiedName × List Char) :=
  match dropBlanks input with
  | '[' :: rest => do
    let (name, rest) ← spec rest
    let (origin, rest) ← origin true rest
    let rest ← expect src ']' rest
    return ({ name with origin }, rest)
  | input => spec input

def arguments (src : Source) (spec : List Char → Except Fault (QualifiedName × List Char))
    (input : List Char) : Except Fault (List QualifiedName × List Char) := do
  let (args, rest) ← separated
    (fun input => match dropBlanks input with | ',' :: rest => some rest | _ => none)
    (argument src spec) input
  let rest ← expect src ']' rest
  return (args, rest)

/-- What stands behind the arguments, which have to be as many as the path takes. -/
def behindArguments (src : Source) (path : List Segment) (args : List QualifiedName)
    (input : List Char) : Except Fault (QualifiedName × List Char) := do
  if args.length ≠ pathArity path then
    throw ⟨.arityMismatch (pathArity path) args.length, input⟩
  let (suffixes, rest) ← suffixes src input
  return (⟨path, args, suffixes, .unqualified⟩, rest)

def spec (src : Source) : Nat → List Char → Except Fault (QualifiedName × List Char)
  | 0, input => .error ⟨.tooDeep src.maxDepth, input⟩
  | levels + 1, input => do
    let (path, rest) ← path src input
    let rest := dropBlanks rest
    let (args, rest) ←
      if pathArity path > 0 && opensArguments rest then
        arguments src (spec src levels) rest.tail
      else pure ([], rest)
    behindArguments src path args rest

def parse (text : String) (maxDepth : Nat := defaultMaxDepth) : Except Fault QualifiedName := do
  let src : Source := ⟨text.toList.length, maxDepth⟩
  let (name, rest) ← spec src maxDepth text.toList
  let (origin, rest) ← origin false rest
  match dropBlanks rest with
  | [] => return { name with origin }
  | rest => throw ⟨src.unexpected rest, rest⟩

end Located

section Forgetting

theorem forget_ok (a : α) : forget (.ok a) = .ok a :=
  rfl

theorem forget_bind (x : Except Fault α) (f : α → Except Fault β) :
    forget (x >>= f) = forget x >>= fun a => forget (f a) := by
  cases x <;> rfl

theorem forget_leaving (left : List Char) (x : Except Error α) :
    forget (Located.leaving left x) = x := by
  cases x <;> rfl

theorem forget_iterate (step : α → List Char → Except Fault (Option (α × List Char))) (value : α)
    (input : List Char) :
    forget (iterate step value input) =
      iterate (fun value input => forget (step value input)) value input := by
  fun_induction iterate step value input with
  | case1 value input e failed =>
    rw [iterate_eq_error (e := e.error) (by rw [failed]; rfl)]
    rfl
  | case2 value input ends =>
    rw [iterate_eq_ok (by rw [ends]; rfl)]
    rfl
  | case3 value input next rest taken shorter ih =>
    have same : forget (step value input) = .ok (some (next, rest)) := by
      rw [taken]
      rfl
    rw [iterate_step same shorter, ih]
  | case4 value input next rest taken longer =>
    rw [iterate, taken]
    exact (if_neg longer).symm

theorem forget_separated (separator : List Char → Option (List Char))
    (item : List Char → Except Fault (α × List Char)) (input : List Char) :
    forget (separated separator item input) =
      separated separator (fun input => forget (item input)) input := by
  rw [separated_eq, separated_eq, forget_bind]
  refine bind_congr fun found => ?_
  rw [forget_iterate]
  congr 1
  funext items input
  unfold separatedStep
  split
  · rfl
  · rw [forget_bind]
    rfl

variable {src : Source}

theorem forget_name (input : List Char) : forget (Located.name input) = takeName input := by
  fun_induction Located.name input with
  | case1 => rfl
  | case2 => rfl
  | case3 c rest ih =>
    rw [takeName_escaped, ← ih, forget_bind]
    rfl
  | case4 c rest lone escape ends =>
    rw [takeName.eq_4 _ _ lone escape, if_pos ends]
    rfl
  | case5 c rest lone escape ordinary ih =>
    rw [takeName.eq_4 _ _ lone escape, if_neg ordinary, ← ih, forget_bind]
    rfl

theorem forget_segment (input : List Char) :
    forget (Located.segment src input) = takeSegment src input := by
  rw [Located.segment, takeSegment, forget_bind, forget_name]
  refine bind_congr fun found => ?_
  dsimp only
  split
  · rfl
  · rw [forget_bind, Located.arity, forget_leaving]
    rfl

theorem forget_path (input : List Char) :
    forget (Located.path src input) = takePath src input :=
  (forget_separated _ _ input).trans (congrArg (separated _ · input) (funext forget_segment))

theorem forget_rank (count : Nat) (input : List Char) :
    forget (Located.rank src count input) = takeRank src count input := by
  induction input generalizing count with
  | nil => rfl
  | cons c rest ih =>
    rw [Located.rank, takeRank]
    split
    · exact ih count
    split
    · exact ih (count + 1)
    split
    · split <;> rfl
    · rfl

theorem forget_array (input : List Char) :
    forget (Located.array src input) = takeArray src input := by
  unfold Located.array takeArray
  -- both readers look at the same character, so one split decides for both
  generalize dropBlanks input = input
  split
  · rw [forget_bind, Located.expect, forget_leaving]
    rfl
  · simp [forget_rank]

theorem forget_suffixes (input : List Char) :
    forget (Located.suffixes src input) = takeSuffixes src input := by
  rw [Located.suffixes, forget_iterate, takeSuffixes]
  congr 1
  funext suffixes input
  generalize dropBlanks input = input
  split
  · rfl
  · rfl
  · rw [forget_bind, forget_array]
    rfl
  · simp [forget_ok]

variable {located : List Char → Except Fault (QualifiedName × List Char)}
  {spec : List Char → Except Error (QualifiedName × List Char)}

theorem forget_argument (same : ∀ input, forget (located input) = spec input)
    (input : List Char) :
    forget (Located.argument src located input) = takeArgument src spec input := by
  unfold Located.argument takeArgument
  generalize dropBlanks input = input
  split
  · rw [forget_bind, same]
    refine bind_congr fun name => ?_
    rw [forget_bind, Located.origin, forget_leaving]
    refine bind_congr fun origin => ?_
    rw [forget_bind, Located.expect, forget_leaving]
    rfl
  · simp [same]

theorem forget_arguments (same : ∀ input, forget (located input) = spec input)
    (input : List Char) :
    forget (Located.arguments src located input) = takeArguments src spec input := by
  rw [Located.arguments, takeArguments, forget_bind, forget_separated,
    funext (forget_argument same)]
  refine bind_congr fun args => ?_
  rw [forget_bind, Located.expect, forget_leaving]
  rfl

theorem forget_behindArguments (path : List Segment) (args : List QualifiedName)
    (input : List Char) :
    forget (Located.behindArguments src path args input) =
      if args.length ≠ pathArity path then throw (.arityMismatch (pathArity path) args.length)
      else do
        let (suffixes, rest) ← takeSuffixes src input
        return (⟨path, args, suffixes, .unqualified⟩, rest) := by
  unfold Located.behindArguments
  split
  · rfl
  · rw [forget_bind, forget_suffixes]
    rfl

theorem forget_spec (levels : Nat) (input : List Char) :
    forget (Located.spec src levels input) = takeSpec src levels input := by
  induction levels generalizing input with
  | zero => rfl
  | succ levels ih =>
    rw [Located.spec, takeSpec, forget_bind, forget_path]
    refine bind_congr fun path => ?_
    dsimp only
    split
    · rw [forget_bind, forget_arguments ih]
      exact bind_congr fun args => forget_behindArguments path.1 args.1 args.2
    · exact forget_behindArguments path.1 [] _

theorem forget_parse (text : String) (maxDepth : Nat) :
    forget (Located.parse text maxDepth) = parse text maxDepth := by
  rw [Located.parse, parse, forget_bind, forget_spec]
  refine bind_congr fun name => ?_
  rw [forget_bind, Located.origin, forget_leaving]
  refine bind_congr fun origin => ?_
  dsimp only
  cases dropBlanks origin.2 <;> rfl

end Forgetting

/-- No arity: no digits, or those of a number that is too small or too large. -/
def OutOfRange (digits : List Char) : Prop :=
  digits = [] ∨ Nat.ofDigitChars 10 digits 0 = 0 ∨
    maxSegmentArity < Nat.ofDigitChars 10 digits 0

/-- What an error says of the text, and of what was left of it where the error was found. -/
def Error.Points (text left : List Char) : Error → Prop
  | .unexpectedCharacter c position => text[position]? = some c ∧ text.drop position = left
  | .emptyName position => ∃ c ∈ nameEnds, text[position]? = some c ∧ text.drop position = left
  | .badArity position => text[position]? = some '\x60' ∧
      OutOfRange ((text.drop (position + 1)).takeWhile Char.isDigit) ∧
      (text.drop (position + 1)).dropWhile Char.isDigit = left
  | .unexpectedEnd => left = []
  | .arityMismatch .. | .badRank _ | .assembly _ | .tooDeep _ => True

/-- What was left is the end of the text, and the error points at what is wrong. -/
structure Fault.Points (text : List Char) (fault : Fault) : Prop where
  suffix : fault.left <:+ text
  points : fault.error.Points text fault.left

/-- A computation that succeeds with an answer of some kind or fails pointing into the text. -/
def Meets (text : List Char) (P : α → Prop) : Except Fault α → Prop
  | .ok a => P a
  | .error fault => fault.Points text

/-- An end of the text is left. -/
def Leaves (text : List Char) (found : α × List Char) : Prop :=
  found.2 <:+ text

section Pointing
variable {src : Source} {text input left rest : List Char} {P : α → Prop} {Q : β → Prop}

theorem Meets.bind {x : Except Fault α} {f : α → Except Fault β} (first : Meets text P x)
    (next : ∀ a, P a → Meets text Q (f a)) : Meets text Q (x >>= f) := by
  cases x with
  | error fault => exact first
  | ok a => exact next a first

theorem Meets.answered {x : Except Fault α} (meets : Meets text P x) :
    Meets text (fun a => P a ∧ x = .ok a) x := by
  cases x with
  | error fault => exact meets
  | ok a => exact ⟨meets, rfl⟩

theorem iterate_meets {step : α → List Char → Except Fault (Option (α × List Char))}
    (each : ∀ value input, input <:+ text →
      Meets text (fun o => ∀ found ∈ o, Leaves text found) (step value input)) (value : α)
    (suffix : input <:+ text) : Meets text (Leaves text) (iterate step value input) := by
  fun_induction iterate step value input with
  | case1 value input fault failed =>
    have := each value input suffix
    rwa [failed] at this
  | case2 value input ends => exact suffix
  | case3 value input next rest taken shorter ih =>
    have := each value input suffix
    rw [taken] at this
    exact ih (this _ rfl)
  | case4 value input next rest taken longer =>
    have := each value input suffix
    rw [taken] at this
    exact this _ rfl

theorem separated_meets {separator : List Char → Option (List Char)}
    {item : List Char → Except Fault (α × List Char)}
    (between : ∀ input rest, separator input = some rest → rest <:+ input)
    (each : ∀ input, input <:+ text → Meets text (Leaves text) (item input))
    (suffix : input <:+ text) : Meets text (Leaves text) (separated separator item input) := by
  refine (each input suffix).bind fun first left =>
    iterate_meets (fun items input suffix => ?_) _ left
  dsimp only
  split
  · exact nofun
  · next behind found =>
    refine (each behind ((between _ _ found).trans suffix)).bind fun next left => ?_
    rintro _ ⟨⟩
    exact left

theorem leaving_meets {x : Except Error α} (suffix : left <:+ text)
    (fails : ∀ e, x = .error e → e.Points text left) (answers : ∀ a, x = .ok a → P a) :
    Meets text P (Located.leaving left x) := by
  cases x with
  | error e => exact ⟨suffix, fails e rfl⟩
  | ok a => exact answers a rfl

theorem dropBlanks_suffix (input : List Char) : dropBlanks input <:+ input :=
  List.dropWhile_suffix isBlank

theorem suffix_of_cons {c : Char} (suffix : c :: rest <:+ text) : rest <:+ text :=
  (List.suffix_cons c rest).trans suffix

theorem drop_position (whole : src.length = text.length) (suffix : left <:+ text) :
    text.drop (src.position left) = left := by
  rw [Source.position, whole]
  exact (List.suffix_iff_eq_drop.mp suffix).symm

theorem getElem?_position {c : Char} (whole : src.length = text.length)
    (suffix : c :: rest <:+ text) : text[src.position (c :: rest)]? = some c := by
  rw [← List.head?_drop, drop_position whole suffix]
  rfl

theorem unexpected_points (whole : src.length = text.length) (suffix : left <:+ text) :
    Fault.Points text ⟨src.unexpected left, left⟩ := by
  refine ⟨suffix, ?_⟩
  cases left with
  | nil => exact rfl
  | cons c rest => exact ⟨getElem?_position whole suffix, drop_position whole suffix⟩

theorem expect_meets {c : Char} (whole : src.length = text.length) (suffix : input <:+ text) :
    Meets text (· <:+ text) (Located.expect src c input) := by
  have behind := (dropBlanks_suffix input).trans suffix
  unfold Located.expect Source.expect
  generalize dropBlanks input = input at behind
  cases input with
  | nil => exact ⟨behind, rfl⟩
  | cons d rest =>
    dsimp only
    split
    · exact suffix_of_cons behind
    · exact unexpected_points whole behind

theorem name_meets (suffix : input <:+ text) : Meets text (Leaves text) (Located.name input) := by
  fun_induction Located.name input with
  | case1 => exact suffix
  | case2 => exact ⟨List.nil_suffix, rfl⟩
  | case3 c rest ih =>
    exact (ih (suffix_of_cons (suffix_of_cons suffix))).bind fun found left => left
  | case4 c rest lone escape ends => exact suffix
  | case5 c rest lone escape ordinary ih =>
    exact (ih (suffix_of_cons suffix)).bind fun found left => left

/-- Where no name is read, nothing is passed, and a blank or a character that ends names is there. -/
theorem name_empty (read : Located.name input = .ok ([], rest)) :
    rest = input ∧ ∀ c ∈ rest.head?, isBlank c = false → c ∈ nameEnds := by
  unfold Located.name at read
  split at read
  · cases read
    exact ⟨rfl, nofun⟩
  · cases read
  · obtain ⟨found, -, other⟩ := bind_eq_ok.mp read
    cases other
  · next c behind lone escape =>
    split at read
    · next ends =>
      cases read
      refine ⟨rfl, ?_⟩
      rintro _ ⟨⟩ solid
      have other : c ≠ '\\' := by
        rintro rfl
        cases behind with
        | nil => exact lone rfl rfl
        | cons d behind => exact escape d behind rfl rfl
      simpa [solid, isMeta, other, nameEnds, or_assoc] using ends
    · obtain ⟨found, -, other⟩ := bind_eq_ok.mp read
      cases other

theorem outOfRange_of_decimal? {digits : List Char} (all : digits.all Char.isDigit = true)
    (refused : ∀ n, decimal? digits = some n → ¬ (1 ≤ n ∧ n ≤ maxSegmentArity)) :
    OutOfRange digits := by
  by_cases none : digits = []
  · exact .inl none
  · have read : decimal? digits = some (Nat.ofDigitChars 10 digits 0) := by
      simp [decimal?, none, all]
    have outside := refused _ read
    refine .inr ?_
    omega

theorem arity_meets (whole : src.length = text.length) (suffix : input <:+ text) :
    Meets text (Leaves text) (Located.arity src input) := by
  have behind : input.tail.dropWhile Char.isDigit <:+ text :=
    (List.dropWhile_suffix _).trans ((List.tail_suffix _).trans suffix)
  unfold Located.arity takeArity
  split
  · next rest =>
    have outside (refused : ∀ n, decimal? (rest.takeWhile Char.isDigit) = some n →
        ¬ (1 ≤ n ∧ n ≤ maxSegmentArity)) :
        Fault.Points text
          ⟨.badArity (src.position ('\x60' :: rest)), rest.dropWhile Char.isDigit⟩ := by
      have passed : text.drop (src.position ('\x60' :: rest) + 1) = rest := by
        rw [← List.drop_drop, drop_position whole suffix, List.drop_one, List.tail_cons]
      refine ⟨behind, getElem?_position whole suffix, ?_, ?_⟩
      · rw [passed]
        exact outOfRange_of_decimal? List.all_takeWhile refused
      · rw [passed]
    split
    · next n read =>
      split
      · exact behind
      · next small =>
        refine outside fun other read' => ?_
        cases read.symm.trans read'
        exact small
    · next none =>
      refine outside fun other read => ?_
      cases none.symm.trans read
  · exact suffix

theorem segment_meets (whole : src.length = text.length) (suffix : input <:+ text) :
    Meets text (Leaves text) (Located.segment src input) := by
  have behind := (dropBlanks_suffix input).trans suffix
  rw [Located.segment]
  refine (name_meets behind).answered.bind fun ⟨name, rest⟩ ⟨left, read⟩ => ?_
  dsimp only
  split
  · next none =>
    obtain rfl := List.isEmpty_iff.mp none
    obtain ⟨same, ends⟩ := name_empty read
    refine ⟨left, ?_⟩
    rw [← same]
    cases first : rest with
    | nil => exact rfl
    | cons c more =>
      obtain rfl := first
      exact ⟨c, ends c rfl (isBlank_head_dropBlanks same.symm), getElem?_position whole left,
        drop_position whole left⟩
  · exact (arity_meets whole left).bind fun found left => left

theorem path_meets (whole : src.length = text.length) (suffix : input <:+ text) :
    Meets text (Leaves text) (Located.path src input) := by
  refine separated_meets (fun input rest found => ?_) (fun input => segment_meets whole) suffix
  split at found
  · cases found
    exact List.suffix_cons _ _
  · cases found

theorem rank_meets (whole : src.length = text.length) (count : Nat) (suffix : input <:+ text) :
    Meets text (Leaves text) (Located.rank src count input) := by
  induction input generalizing count with
  | nil => exact ⟨suffix, rfl⟩
  | cons c rest ih =>
    have behind := suffix_of_cons suffix
    rw [Located.rank]
    split
    · exact ih count behind
    split
    · exact ih (count + 1) behind
    split
    · split
      · exact behind
      · exact ⟨behind, trivial⟩
    · exact unexpected_points whole suffix

theorem array_meets (whole : src.length = text.length) (suffix : input <:+ text) :
    Meets text (Leaves text) (Located.array src input) := by
  have behind := (dropBlanks_suffix input).trans suffix
  unfold Located.array
  split
  · next rest star =>
    rw [star] at behind
    exact (expect_meets whole (suffix_of_cons behind)).bind fun rest left => left
  · exact rank_meets whole 1 behind

theorem suffixes_meets (whole : src.length = text.length) (suffix : input <:+ text) :
    Meets text (Leaves text) (Located.suffixes src input) := by
  refine iterate_meets (fun suffixes input suffix => ?_) [] suffix
  have behind := (dropBlanks_suffix input).trans suffix
  have one {suffix : Suffix} {rest : List Char} (left : rest <:+ text) :
      ∀ found ∈ some (suffixes ++ [suffix], rest), Leaves text found := by
    rintro _ ⟨⟩
    exact left
  split
  · next rest star =>
    rw [star] at behind
    exact one (suffix_of_cons behind)
  · next rest amp =>
    rw [amp] at behind
    exact one (suffix_of_cons behind)
  · next rest bracket =>
    rw [bracket] at behind
    exact (array_meets whole (suffix_of_cons behind)).bind fun found left => one left
  · exact nofun

theorem origin_meets {inArgument : Bool} (suffix : input <:+ text) :
    Meets text (Leaves text) (Located.origin inArgument input) := by
  have behind := (dropBlanks_suffix input).trans suffix
  refine leaving_meets ?_ (fun e failed => ?_) fun found read => ?_
  · split
    · exact (List.dropWhile_suffix _).trans ((List.tail_suffix _).trans behind)
    · exact List.nil_suffix
  · unfold takeOrigin at failed
    split at failed
    · dsimp only at failed
      split at failed
      · cases failed
      · cases failed
        trivial
    · cases failed
  · unfold takeOrigin at read
    split at read
    · next rest comma =>
      rw [comma] at behind
      dsimp only at read
      split at read
      · cases read
        cases inArgument with
        | true =>
          rw [if_pos rfl, List.span_eq_takeWhile_dropWhile]
          exact (List.dropWhile_suffix _).trans (suffix_of_cons behind)
        | false => exact List.nil_suffix
      · cases read
    · cases read
      exact behind

variable {spec : List Char → Except Fault (QualifiedName × List Char)}

theorem argument_meets (whole : src.length = text.length)
    (each : ∀ input, input <:+ text → Meets text (Leaves text) (spec input))
    (suffix : input <:+ text) : Meets text (Leaves text) (Located.argument src spec input) := by
  have behind := (dropBlanks_suffix input).trans suffix
  unfold Located.argument
  split
  · next rest bracket =>
    rw [bracket] at behind
    exact (each _ (suffix_of_cons behind)).bind fun name left =>
      (origin_meets left).bind fun origin left =>
        (expect_meets whole left).bind fun rest left => left
  · exact each _ behind

theorem arguments_meets (whole : src.length = text.length)
    (each : ∀ input, input <:+ text → Meets text (Leaves text) (spec input))
    (suffix : input <:+ text) : Meets text (Leaves text) (Located.arguments src spec input) := by
  refine Meets.bind (P := Leaves text) (separated_meets (fun input rest found => ?_)
    (fun input => argument_meets whole each) suffix)
    fun args left => (expect_meets whole left).bind fun rest left => left
  split at found
  · next comma =>
    cases found
    exact (comma ▸ List.suffix_cons _ _).trans (dropBlanks_suffix input)
  · cases found

theorem behindArguments_meets (whole : src.length = text.length) (path : List Segment)
    (args : List QualifiedName) (suffix : input <:+ text) :
    Meets text (Leaves text) (Located.behindArguments src path args input) := by
  unfold Located.behindArguments
  split
  · exact ⟨suffix, trivial⟩
  · exact (suffixes_meets whole suffix).bind fun found left => left

theorem spec_meets (whole : src.length = text.length) (levels : Nat) (suffix : input <:+ text) :
    Meets text (Leaves text) (Located.spec src levels input) := by
  induction levels generalizing input with
  | zero => exact ⟨suffix, trivial⟩
  | succ levels ih =>
    rw [Located.spec]
    refine (path_meets whole suffix).bind fun path left => ?_
    have behind := (dropBlanks_suffix path.2).trans left
    dsimp only
    split
    · exact (arguments_meets whole (fun input => ih) ((List.tail_suffix _).trans behind)).bind
        fun args left => behindArguments_meets whole path.1 args.1 left
    · exact behindArguments_meets whole path.1 [] behind

theorem parse_meets (text : String) (maxDepth : Nat) :
    Meets text.toList (fun _ => True) (Located.parse text maxDepth) := by
  have whole : (⟨text.toList.length, maxDepth⟩ : Source).length = text.toList.length := rfl
  refine (spec_meets whole maxDepth List.suffix_rfl).bind fun name left => ?_
  refine (origin_meets left).bind fun origin left => ?_
  have behind := (dropBlanks_suffix origin.2).trans left
  dsimp only
  split
  · trivial
  · exact unexpected_points whole behind

end Pointing

/-- Wherever a text is no type name, the error says where: a character that was not expected stands
at its position, a name that is empty has a character that ends names in its place, an arity that is
none stands behind a backtick, and nothing is left of a text that ended too early. Reading stopped
at the position, or behind the digits of the arity. -/
theorem parse_error_points {text : String} {maxDepth : Nat} {e : Error}
    (failed : parse text maxDepth = .error e) :
    ∃ left, Located.parse text maxDepth = .error ⟨e, left⟩ ∧ left <:+ text.toList ∧
      e.Points text.toList left := by
  have meets := parse_meets text maxDepth
  rw [← forget_parse] at failed
  cases read : Located.parse text maxDepth with
  | ok t =>
    rw [read] at failed
    cases failed
  | error fault =>
    rw [read] at failed meets
    cases failed
    exact ⟨fault.left, rfl, meets.suffix, meets.points⟩

/-- Behind the assembly of an argument, after blanks, escapes and another level, nothing but a
bracket is expected. -/
def strayText : String :=
  " G\x601[ A\\+B\x601[[C, D] ;]]"

theorem strayText_points : parse strayText 3 = .error (.unexpectedCharacter ';' 20) ∧
    ∃ left, Located.parse strayText 3 = .error ⟨.unexpectedCharacter ';' 20, left⟩ ∧
      left <:+ strayText.toList ∧
      (Error.unexpectedCharacter ';' 20).Points strayText.toList left := by
  have failed : parse strayText 3 = .error (.unexpectedCharacter ';' 20) :=
    eq_error_of_map (f := fun _ => ()) (by decide +kernel)
  exact ⟨failed, parse_error_points failed⟩

end DebugExpr.QualifiedName
