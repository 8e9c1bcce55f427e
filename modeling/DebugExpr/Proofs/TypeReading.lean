import DebugExpr.Proofs.ExprDepths
import DebugExpr.Source.Parse

/-! Reading of types, from both sides. Whatever is read as a type is written with few kinds of
tokens and is well formed, and every well-formed type is read back from its tokens wherever no mark
follows that could belong to it. -/
namespace DebugExpr.Source
open Metadata Parsing

/-- A built-in type or a dotted name: a type without marks behind it. -/
def TypeExpr.isHead : TypeExpr → Bool
  | keyword _ | named .. => true
  | nullable _ | array .. => false

/-- The type has the shape of one that is written. -/
inductive TypeExpr.Readable : TypeExpr → Prop
  | keyword {type : Primitive} (word : type.keyword?.isSome = true) : Readable (.keyword type)
  | named {isGlobal : Bool} {segments : List (String × List TypeExpr)} (nonempty : segments ≠ [])
      (names : ∀ s ∈ segments, IsName s.1.toList)
      (first : isGlobal = false → ∀ s ∈ segments.head?, s.1.toList.head? ≠ some '$')
      (args : ∀ s ∈ segments, ∀ t ∈ s.2, Readable t) : Readable (.named isGlobal segments)
  | nullable {inner : TypeExpr} (head : inner.isHead = true) (readable : Readable inner) :
      Readable (.nullable inner)
  | array {element : TypeExpr} {rank : Nat} (positive : 0 < rank) (readable : Readable element) :
      Readable (.array element rank)

/-- The type is read somewhere in a text. -/
def TypeExpr.Parsed (t : TypeExpr) : Prop :=
  ∃ text scanned, scan text = .ok scanned ∧ ∃ b levels input rest,
    input <:+ scanned.tokens ∧ readTypeExpr b levels input = .ok (t, rest)

/-- The kinds of tokens of which types are made. -/
def inType : TokenKind → Bool
  | .identifier _ | .typeKeyword _ | .global => true
  | .mark sign => [.doubleColon, .less, .greater, .comma, .dot, .question, .openBracket,
      .closeBracket].contains sign
  | _ => false

theorem takeMark?_eq_some {sign : Mark} {input rest : List Token} :
    takeMark? sign input = some rest ↔
      ∃ token, token.kind = .mark sign ∧ input = token :: rest := by
  cases input with
  | nil => simp [takeMark?]
  | cons token input =>
    simp only [takeMark?, Option.ite_none_right_eq_some, Option.some.injEq, List.cons.injEq]
    constructor
    · rintro ⟨same, rfl⟩
      exact ⟨token, same, rfl, rfl⟩
    · rintro ⟨_, same, rfl, rfl⟩
      exact ⟨same, rfl⟩

theorem expectMark_eq_ok {b : Bounds} {sign : Mark} {input rest : List Token} :
    expectMark b sign input = .ok rest ↔ takeMark? sign input = some rest := by
  unfold expectMark
  cases takeMark? sign input with
  | none => simp [Bounds.fail]
  | some rest => simp

theorem readName_eq_ok {b : Bounds} {name : String} {input rest : List Token}
    (read : readName b input = .ok (name, rest)) :
    ∃ token, token.kind = .identifier name ∧ input = token :: rest := by
  unfold readName at read
  split at read
  · cases read
    exact ⟨_, rfl, rfl⟩
  · cases read

section Kept
variable {b : Bounds} {Q : List Token → Prop}

/-- The property outlasts tokens of types. -/
def Drops (Q : List Token → Prop) : Prop :=
  ∀ token rest, inType token.kind = true → Q (token :: rest) → Q rest

/-- The property is of tokens that have spellings. -/
def Spelled (Q : List Token → Prop) : Prop :=
  ∀ token rest, Q (token :: rest) → token.kind.Spellable

/-- What a reader takes is made of tokens of types, and what it answers has a property if they have
spellings. -/
def KeepsTypes {α : Type} (Q : List Token → Prop) (read : Parser α) (P : α → Prop) : Prop :=
  ∀ input x rest, read input = .ok (x, rest) → Q input → (Spelled Q → P x) ∧ Q rest

theorem takeMark?_kept (drops : Drops Q) {sign : Mark} (made : inType (.mark sign) = true)
    {input rest : List Token} (taken : takeMark? sign input = some rest) (before : Q input) :
    Q rest := by
  obtain ⟨token, same, rfl⟩ := takeMark?_eq_some.mp taken
  exact drops token rest (same ▸ made) before

theorem expectMark_kept (drops : Drops Q) {sign : Mark} (made : inType (.mark sign) = true)
    {input rest : List Token} (taken : expectMark b sign input = .ok rest) (before : Q input) :
    Q rest :=
  takeMark?_kept drops made (expectMark_eq_ok.mp taken) before

variable {type : Parser TypeExpr}

theorem readTypeArgs_keeps (drops : Drops Q) (keeps : KeepsTypes Q type TypeExpr.Readable) :
    KeepsTypes Q (readTypeArgs b type) fun args => ∀ t ∈ args, t.Readable := by
  intro input args rest read before
  unfold readTypeArgs at read
  split at read
  · cases read
    exact ⟨fun _ => nofun, before⟩
  · next behind taken =>
    simp only [bind_eq_ok, pure_eq_ok, Prod.mk.injEq] at read
    obtain ⟨⟨items, more⟩, items_read, after, closed, rfl, rfl⟩ := read
    obtain ⟨-, all, left⟩ := separated_invariant
      (P := fun t : TypeExpr => Spelled Q → t.Readable) keeps
      (fun _ _ => takeMark?_kept drops rfl) items_read (takeMark?_kept drops rfl taken before)
    exact ⟨fun spelled t member => all t member spelled, expectMark_kept drops rfl closed left⟩

theorem readTypeSegment_keeps (drops : Drops Q) (keeps : KeepsTypes Q type TypeExpr.Readable) :
    KeepsTypes Q (readTypeSegment b type) fun s => IsName s.1.toList ∧ ∀ t ∈ s.2, t.Readable := by
  intro input segment rest read before
  simp only [readTypeSegment, bind_eq_ok, pure_eq_ok, Prod.mk.injEq] at read
  obtain ⟨⟨name, behind⟩, nameRead, ⟨args, after⟩, argsRead, rfl, rfl⟩ := read
  obtain ⟨token, same, rfl⟩ := readName_eq_ok nameRead
  obtain ⟨all, left⟩ :=
    readTypeArgs_keeps drops keeps _ _ _ argsRead (drops token behind (same ▸ rfl) before)
  refine ⟨fun spelled => ⟨?_, all spelled⟩, left⟩
  have := spelled token behind before
  rwa [same] at this

theorem takeNameDot?_kept (drops : Drops Q) {input rest : List Token}
    (taken : takeNameDot? input = some rest) (before : Q input) : Q rest := by
  unfold takeNameDot? at taken
  split at taken
  · cases taken
    exact drops _ _ rfl before
  · cases taken

theorem readDottedType_keeps (drops : Drops Q) (keeps : KeepsTypes Q type TypeExpr.Readable)
    {isGlobal : Bool} {input rest : List Token} {t : TypeExpr}
    (read : readDottedType b type isGlobal input = .ok (t, rest)) (before : Q input)
    (first : isGlobal = false → ∀ token ∈ input.head?, ∀ name,
      token.kind = .identifier name → name.toList.head? ≠ some '$') :
    ((Spelled Q → t.Readable) ∧ t.isHead = true) ∧ Q rest := by
  simp only [readDottedType, bind_eq_ok, pure_eq_ok, Prod.mk.injEq] at read
  obtain ⟨⟨segments, after⟩, segmentsRead, rfl, rfl⟩ := read
  obtain ⟨⟨segment, more, behind, rfl, one⟩, all, left⟩ := separated_invariant
    (P := fun s : String × List TypeExpr =>
      Spelled Q → IsName s.1.toList ∧ ∀ t ∈ s.2, t.Readable)
    (readTypeSegment_keeps drops keeps) (fun _ _ => takeNameDot?_kept drops) segmentsRead before
  refine ⟨⟨fun spelled => .named (by simp) (fun s member => (all s member spelled).1) ?_
    fun s member => (all s member spelled).2, rfl⟩, left⟩
  rintro locally s ⟨⟩
  simp only [readTypeSegment, bind_eq_ok, pure_eq_ok, Prod.mk.injEq] at one
  obtain ⟨⟨name, _⟩, nameRead, _, _, rfl, -⟩ := one
  obtain ⟨token, same, rfl⟩ := readName_eq_ok nameRead
  exact first locally token rfl name same

theorem readTypeHead_keeps (drops : Drops Q) (keeps : KeepsTypes Q type TypeExpr.Readable)
    {input rest : List Token} {t : TypeExpr}
    (read : readTypeHead b type input = .ok (t, rest)) (before : Q input) :
    ((Spelled Q → t.Readable) ∧ t.isHead = true) ∧ Q rest := by
  unfold readTypeHead at read
  split at read
  · cases read
    exact ⟨⟨fun spelled => .keyword (spelled _ _ before), rfl⟩, drops _ _ rfl before⟩
  · simp only [bind_eq_ok] at read
    obtain ⟨behind, taken, read⟩ := read
    have after := expectMark_kept drops rfl taken (drops _ _ rfl before)
    exact readDottedType_keeps drops keeps read after fun locally => by cases locally
  · split at read
    · split at read
      · cases read
      · next name _ _ local_ =>
        refine readDottedType_keeps drops keeps read before ?_
        rintro - token ⟨⟩ name' ⟨⟩
        exact local_
    · cases read

theorem isComma_kept (drops : Drops Q) {input : List Token} (before : Q input) :
    Q (input.dropWhile isComma) := by
  induction input with
  | nil => exact before
  | cons token rest ih =>
    rw [List.dropWhile_cons]
    split
    · next comma => exact ih (drops token rest (by rw [eq_of_beq comma]; rfl) before)
    · exact before

theorem readRanks_keeps (drops : Drops Q) {element t : TypeExpr} {input rest : List Token}
    (read : readRanks b element input = .ok (t, rest))
    (before : (Spelled Q → element.Readable) ∧ Q input) : (Spelled Q → t.Readable) ∧ Q rest := by
  refine iterate_invariant (P := fun (t : TypeExpr) input => (Spelled Q → t.Readable) ∧ Q input)
    ?_ read before
  rintro t input next rest step ⟨readable, before⟩
  split at step
  · cases step
  · next behind taken =>
    simp only [bind_eq_ok, pure_eq_ok, Option.some.injEq, Prod.mk.injEq] at step
    obtain ⟨after, closed, rfl, rfl⟩ := step
    refine ⟨fun spelled => .array (Nat.succ_pos _) (readable spelled),
      expectMark_kept drops rfl closed (isComma_kept drops ?_)⟩
    unfold takeArrayBracket? at taken
    split at taken
    · split at taken <;> cases taken <;> exact drops _ _ rfl before
    · cases taken

theorem readTypeExpr_keeps (drops : Drops Q) (levels : Nat) :
    KeepsTypes Q (readTypeExpr b levels) TypeExpr.Readable := by
  induction levels with
  | zero => exact fun input t rest read => nomatch read
  | succ levels ih =>
    intro input t rest read before
    simp only [readTypeExpr, readTypeBody, bind_eq_ok] at read
    obtain ⟨⟨head, behind⟩, headRead, read⟩ := read
    obtain ⟨⟨readable, isHead⟩, left⟩ := readTypeHead_keeps drops ih headRead before
    split at read
    · next after taken =>
      exact readRanks_keeps drops read
        ⟨fun spelled => .nullable isHead (readable spelled), takeMark?_kept drops rfl taken left⟩
    · exact readRanks_keeps drops read ⟨readable, left⟩

end Kept

theorem TypeExpr.Parsed.readable {t : TypeExpr} (parsed : t.Parsed) : t.Readable := by
  obtain ⟨text, scanned, scans, b, levels, input, rest, inside, read⟩ := parsed
  have all := spellable_of_scan scans
  refine (readTypeExpr_keeps (Q := fun input => ∀ token ∈ input, token.kind.Spellable) ?_ levels
    input t rest read fun token member => all token (inside.mem member)).1 ?_
  · exact fun _ _ _ spellable token member => spellable token (List.mem_cons_of_mem _ member)
  · exact fun token _ spellable => spellable token List.mem_cons_self

/-- The tokens that a type takes are all of kinds that types are made of. -/
theorem readTypeExpr_takes {b : Bounds} {levels : Nat} {t : TypeExpr} {input rest : List Token}
    (read : readTypeExpr b levels input = .ok (t, rest)) :
    ∃ taken, input = taken ++ rest ∧ ∀ token ∈ taken, inType token.kind = true := by
  refine (readTypeExpr_keeps
    (Q := fun rest => ∃ taken, input = taken ++ rest ∧ ∀ token ∈ taken, inType token.kind = true)
    ?_ levels input t rest read ⟨[], rfl, nofun⟩).2
  rintro token rest made ⟨taken, rfl, all⟩
  exact ⟨taken ++ [token], by simp, List.forall_mem_append.mpr ⟨all, by simpa using made⟩⟩

/-- The tokens begin with none of the marks. -/
def Lacks (marks : List Mark) (rest : List Token) : Prop :=
  ∀ token ∈ rest.head?, ∀ sign ∈ marks, token.kind ≠ .mark sign

section Marks
variable {sign : Mark} {marks fewer : List Mark} {token : Token} {rest : List Token}

theorem Lacks.takeMark? (lacks : Lacks marks rest) (member : sign ∈ marks) :
    takeMark? sign rest = none := by
  cases rest with
  | nil => rfl
  | cons token rest => exact if_neg (lacks token rfl sign member)

theorem lacks_of_takeMark? (none : takeMark? sign rest = none) : Lacks [sign] rest := by
  rintro token head mark member same
  obtain rfl := List.mem_singleton.mp member
  obtain ⟨more, rfl⟩ := List.head?_eq_some_iff.mp head
  rw [Source.takeMark?, if_pos same] at none
  cases none

theorem Lacks.mono (lacks : Lacks marks rest) (subset : fewer ⊆ marks) : Lacks fewer rest :=
  fun token head sign member => lacks token head sign (subset member)

theorem lacks_of_mark (same : token.kind = .mark sign) (other : sign ∉ marks) :
    Lacks marks (token :: rest) := by
  rintro _ ⟨⟩ mark member kind
  obtain rfl : sign = mark := TokenKind.mark.inj (same.symm.trans kind)
  exact other member

theorem takeMark?_cons (same : token.kind = .mark sign) :
    takeMark? sign (token :: rest) = some rest :=
  if_pos same

theorem expectMark_cons {b : Bounds} (same : token.kind = .mark sign) :
    expectMark b sign (token :: rest) = .ok rest :=
  expectMark_eq_ok.mpr (takeMark?_cons same)

/-- Tokens of which the first is known. -/
theorem exists_first {k : TokenKind} {kinds : List TokenKind} {ts : List Token}
    (spelled : ts.map (·.kind) = k :: kinds) :
    ∃ position more, ts = ⟨k, position⟩ :: more ∧ more.map (·.kind) = kinds := by
  obtain ⟨⟨_, position⟩, more, rfl, rfl, spelledMore⟩ := List.map_eq_cons_iff.mp spelled
  exact ⟨position, more, rfl, spelledMore⟩

/-- Tokens that are written between two marks. -/
theorem exists_between {opening closing : TokenKind} {kinds : List TokenKind} {ts : List Token}
    (spelled : ts.map (·.kind) = opening :: (kinds ++ [closing])) :
    ∃ position inner close, inner.map (·.kind) = kinds ∧ close.kind = closing ∧
      ∀ rest, ts ++ rest = ⟨opening, position⟩ :: (inner ++ close :: rest) := by
  obtain ⟨position, _, rfl, spelledInner⟩ := exists_first spelled
  obtain ⟨inner, _, rfl, spelledKinds, spelledClose⟩ := List.map_eq_append_iff.mp spelledInner
  obtain ⟨place, _, rfl, spelledEnd⟩ := exists_first spelledClose
  obtain rfl := List.map_eq_nil_iff.mp spelledEnd
  exact ⟨position, inner, ⟨closing, place⟩, spelledKinds, rfl, fun rest => by simp⟩

/-- Tokens that are written around one. -/
theorem exists_around {k : TokenKind} {first second : List TokenKind} {ts : List Token}
    (spelled : ts.map (·.kind) = first ++ k :: second) :
    ∃ left position right, left.map (·.kind) = first ∧ right.map (·.kind) = second ∧
      ∀ rest, ts ++ rest = left ++ ⟨k, position⟩ :: (right ++ rest) := by
  obtain ⟨left, _, rfl, spelledLeft, spelledMore⟩ := List.map_eq_append_iff.mp spelled
  obtain ⟨position, right, rfl, spelledRight⟩ := exists_first spelledMore
  exact ⟨left, position, right, spelledLeft, spelledRight, fun rest => by simp⟩

end Marks

/-- The marks that continue a type. -/
def typeMarks : List Mark :=
  [.less, .dot, .question, .openBracket]

/-- Types of some set are read back from their tokens. -/
def ReadsTypes (read : Parser TypeExpr) (args : List TypeExpr) : Prop :=
  ∀ t ∈ args, ∀ ts rest, ts.map (·.kind) = t.tokens → Lacks typeMarks rest →
    read (ts ++ rest) = .ok (t, rest)

section Written
variable {b : Bounds} {type : Parser TypeExpr} {ts rest : List Token}

/-- Type arguments in brackets are read back in front of anything. -/
theorem readTypeArgs_angled {first : TypeExpr} {more : List TypeExpr}
    (reads : ReadsTypes type (first :: more))
    (spelled : ts.map (·.kind) = TypeExpr.argTokens (first :: more)) (rest : List Token) :
    readTypeArgs b type (ts ++ rest) = .ok (first :: more, rest) := by
  obtain ⟨position, items, greater, spelledItems, isGreater, split⟩ := exists_between spelled
  have items_read : ∀ t ∈ first :: more, ∀ ts rest, ts.map (·.kind) = t.tokens →
      Lacks typeMarks rest → ∃ y, id y = id t ∧ type (ts ++ rest) = .ok (y, rest) :=
    fun t member ts rest spelled behind => ⟨t, rfl, reads t member ts rest spelled behind⟩
  have ends : takeMark? .comma (greater :: rest) = none :=
    (lacks_of_mark isGreater (by decide : .greater ∉ [Mark.comma])).takeMark? (by simp)
  obtain ⟨args, same, read⟩ := separated_read (Lacks typeMarks) items_read
    (fun _ _ _ _ _ isComma _ => takeMark?_cons isComma)
    (fun _ _ isComma => lacks_of_mark isComma (by decide)) ends
    (lacks_of_mark isGreater (by decide)) spelledItems
  rw [List.map_id, List.map_id] at same
  rw [split, readTypeArgs, takeMark?_cons rfl]
  simp only [read, same, ok_bind, expectMark_cons isGreater]
  rfl

theorem readTypeArgs_read {args : List TypeExpr} (reads : ReadsTypes type args)
    (spelled : ts.map (·.kind) = TypeExpr.argTokens args) (behind : Lacks [.less] rest) :
    readTypeArgs b type (ts ++ rest) = .ok (args, rest) := by
  cases args with
  | nil =>
    obtain rfl : ts = [] := List.map_eq_nil_iff.mp spelled
    rw [readTypeArgs, List.nil_append, behind.takeMark? (by simp)]
  | cons first more => exact readTypeArgs_angled reads spelled rest

theorem readTypeSegment_read {segment : String × List TypeExpr}
    (reads : ReadsTypes type segment.2)
    (spelled : ts.map (·.kind) = TypeExpr.segmentTokens segment) (behind : Lacks [.less] rest) :
    readTypeSegment b type (ts ++ rest) = .ok (segment, rest) := by
  obtain ⟨position, args, rfl, spelledArgs⟩ := exists_first spelled
  have read : readTypeArgs b type (args ++ rest) = .ok (segment.2, rest) :=
    readTypeArgs_read reads spelledArgs behind
  rw [List.cons_append, readTypeSegment, readName]
  simp only [ok_bind, read]
  rfl

theorem readDottedType_read {isGlobal : Bool} {segments : List (String × List TypeExpr)}
    (nonempty : segments ≠ []) (reads : ∀ s ∈ segments, ReadsTypes type s.2)
    (spelled : ts.map (·.kind) = [.mark .dot].intercalate (segments.map TypeExpr.segmentTokens))
    (behind : Lacks [.less, .dot] rest) :
    readDottedType b type isGlobal (ts ++ rest) = .ok (.named isGlobal segments, rest) := by
  obtain ⟨first, more, rfl⟩ := List.exists_cons_of_ne_nil nonempty
  have ends : takeNameDot? rest = none := by
    unfold takeNameDot?
    split
    · exact absurd rfl (behind _ rfl .dot (by simp))
    · rfl
  have dotted : ∀ s ∈ more, ∀ (dot : Token) (ts rest : List Token), dot.kind = .mark .dot →
      ts.map (·.kind) = TypeExpr.segmentTokens s →
      takeNameDot? (dot :: (ts ++ rest)) = some (ts ++ rest) := by
    rintro s - ⟨_, _⟩ ts rest rfl spelled
    obtain ⟨_, args, rfl, -⟩ := exists_first spelled
    rfl
  have segments_read : ∀ s ∈ first :: more, ∀ ts rest,
      ts.map (·.kind) = TypeExpr.segmentTokens s → Lacks [.less] rest →
      ∃ y, id y = id s ∧ readTypeSegment b type (ts ++ rest) = .ok (y, rest) :=
    fun s member ts rest spelled behind =>
      ⟨s, rfl, readTypeSegment_read (reads s member) spelled behind⟩
  obtain ⟨segments, same, read⟩ := separated_read (Lacks [.less]) segments_read dotted
    (fun dot _ isDot => lacks_of_mark isDot (by decide)) ends (behind.mono (by simp)) spelled
  rw [List.map_id, List.map_id] at same
  rw [readDottedType, read, same]
  rfl

theorem readRanks_eq_ok {t : TypeExpr} (behind : Lacks [.openBracket] rest) :
    readRanks b t rest = .ok (t, rest) := by
  refine iterate_eq_ok ?_
  have none : takeArrayBracket? rest = none := by
    unfold takeArrayBracket?
    split
    · exact absurd rfl (behind _ rfl .openBracket (by simp))
    · rfl
  rw [none]

theorem commas_read {count : Nat} {close : Token} (isClose : close.kind = .mark .closeBracket)
    (spelled : ts.map (·.kind) = List.replicate count (.mark .comma)) :
    ((ts ++ close :: rest).takeWhile isComma).length = count ∧
      (ts ++ close :: rest).dropWhile isComma = close :: rest := by
  have all : ∀ token ∈ ts, isComma token = true := by
    intro token member
    have inside := List.mem_map_of_mem (f := (·.kind)) member
    rw [spelled] at inside
    exact beq_iff_eq.mpr (List.eq_of_mem_replicate inside)
  have other : ¬ isComma close = true := by simp [isComma, isClose]
  rw [List.takeWhile_append_of_pos all, List.dropWhile_append_of_pos all,
    List.takeWhile_cons_of_neg other, List.dropWhile_cons_of_neg other, List.append_nil]
  have := congrArg List.length spelled
  rw [List.length_map, List.length_replicate] at this
  exact ⟨this, rfl⟩

/-- The brackets of an array are one step of reading ranks. -/
theorem readRanks_array {element : TypeExpr} {rank : Nat} (positive : 0 < rank)
    (spelled : ts.map (·.kind) = .mark .openBracket ::
      (List.replicate (rank - 1) (.mark .comma) ++ [.mark .closeBracket])) :
    readRanks b element (ts ++ rest) = readRanks b (.array element rank) rest := by
  obtain ⟨position, commas, close, spelledCommas, isClose, split⟩ := exists_between spelled
  obtain ⟨count, left⟩ : _ ∧ _ = close :: rest := commas_read isClose spelledCommas
  have bracket : takeArrayBracket? (⟨.mark .openBracket, position⟩ :: (commas ++ close :: rest)) =
      some (commas ++ close :: rest) := by
    cases commas with
    | nil =>
      obtain ⟨_, _⟩ := close
      cases isClose
      rfl
    | cons comma commas =>
      obtain ⟨_, _⟩ := comma
      cases rank with
      | zero => cases positive
      | succ rank =>
        cases rank with
        | zero => cases spelledCommas
        | succ rank =>
          obtain ⟨rfl, -⟩ := List.cons.inj spelledCommas
          rfl
  rw [split]
  refine iterate_step ?_ (by simp; omega)
  simp only [bracket, left, expectMark_cons isClose, count, Nat.sub_add_cancel positive]
  rfl

end Written

theorem TypeExpr.Readable.depth_pos {t : TypeExpr} (readable : t.Readable) : 0 < t.depth := by
  induction readable with
  | keyword word => exact Nat.one_pos
  | named nonempty names first args ih => exact Nat.succ_pos _
  | nullable head readable ih => exact ih
  | array positive readable ih => exact ih

section Written
variable {b : Bounds} {levels : Nat} {ts : List Token}

/-- A type without marks behind it is read as far as its ranks. -/
theorem readTypeBody_head {t : TypeExpr}
    (head : ∀ rest, Lacks [.less, .dot] rest →
      readTypeHead b (readTypeExpr b levels) (ts ++ rest) = .ok (t, rest)) {rest : List Token}
    (behind : Lacks [.less, .dot, .question] rest) :
    readTypeBody b (readTypeExpr b levels) (ts ++ rest) = readRanks b t rest := by
  rw [readTypeBody, head rest (behind.mono (by simp)), ok_bind]
  simp only [behind.takeMark? (by simp : .question ∈ [Mark.less, .dot, .question])]

theorem readTypeHead_named {isGlobal : Bool} {segments : List (String × List TypeExpr)}
    (nonempty : segments ≠ [])
    (first : isGlobal = false → ∀ s ∈ segments.head?, s.1.toList.head? ≠ some '$')
    (reads : ∀ s ∈ segments, ReadsTypes (readTypeExpr b levels) s.2)
    (spelled : ts.map (·.kind) = (TypeExpr.named isGlobal segments).tokens) {rest : List Token}
    (behind : Lacks [.less, .dot] rest) :
    readTypeHead b (readTypeExpr b levels) (ts ++ rest) = .ok (.named isGlobal segments, rest) := by
  rw [TypeExpr.tokens_named] at spelled
  cases isGlobal with
  | true =>
    obtain ⟨_, _, rfl, spelledRest⟩ := exists_first spelled
    obtain ⟨_, name, rfl, spelledName⟩ := exists_first spelledRest
    have read : readDottedType b (readTypeExpr b levels) true (name ++ rest) =
        .ok (.named true segments, rest) := readDottedType_read nonempty reads spelledName behind
    rw [List.cons_append, List.cons_append, readTypeHead, expectMark_cons rfl]
    exact read
  | false =>
    have read : readDottedType b (readTypeExpr b levels) false (ts ++ rest) =
        .ok (.named false segments, rest) := readDottedType_read nonempty reads spelled behind
    obtain ⟨segment, more, rfl⟩ := List.exists_cons_of_ne_nil nonempty
    have plain := first rfl segment rfl
    rw [List.map_cons, intercalate_singleton] at spelled
    obtain ⟨_, _, rfl, -⟩ := exists_first spelled
    rw [List.cons_append] at read ⊢
    unfold readTypeHead
    simp only [if_neg plain, read]

end Written

/-- A type is read back from its tokens, without the marks behind it and with them. -/
theorem TypeExpr.Readable.read {b : Bounds} {t : TypeExpr} (readable : t.Readable) {levels : Nat}
    (fits : t.depth ≤ levels + 1) {ts : List Token} (spelled : ts.map (·.kind) = t.tokens) :
    (t.isHead = true → ∀ rest, Lacks [.less, .dot] rest →
      readTypeHead b (readTypeExpr b levels) (ts ++ rest) = .ok (t, rest)) ∧
    ∀ rest, Lacks [.less, .dot, .question] rest →
      readTypeBody b (readTypeExpr b levels) (ts ++ rest) = readRanks b t rest := by
  induction readable generalizing levels ts with
  | @keyword type word =>
    obtain ⟨position, _, rfl, spelledEnd⟩ := exists_first spelled
    obtain rfl := List.map_eq_nil_iff.mp spelledEnd
    have head : ∀ rest, Lacks [.less, .dot] rest →
        readTypeHead b (readTypeExpr b levels) ([⟨.typeKeyword type, position⟩] ++ rest) =
          .ok (.keyword type, rest) := fun rest _ => rfl
    exact ⟨fun _ => head, fun _ => readTypeBody_head head⟩
  | @named isGlobal segments nonempty names first args ih =>
    have reads : ∀ s ∈ segments, ReadsTypes (readTypeExpr b levels) s.2 := by
      intro s member t inside ts rest spelled behind
      have fits : t.depth ≤ levels := by
        have := (depth_le_all inside).trans (depth_le_segments member)
        rw [depth] at fits
        omega
      have positive := (args s member t inside).depth_pos
      obtain ⟨below, rfl⟩ := Nat.exists_eq_add_one_of_ne_zero (n := levels) (by omega)
      rw [readTypeExpr, (ih s member t inside fits spelled).2 rest (behind.mono (by decide)),
        readRanks_eq_ok (behind.mono (by decide))]
    have head : ∀ rest, Lacks [.less, .dot] rest →
        readTypeHead b (readTypeExpr b levels) (ts ++ rest) =
          .ok (.named isGlobal segments, rest) :=
      fun rest => readTypeHead_named nonempty first reads spelled
    exact ⟨fun _ => head, fun _ => readTypeBody_head head⟩
  | @nullable inner isHead readable ih =>
    obtain ⟨ts, _, rfl, spelledInner, spelledMark⟩ := List.map_eq_append_iff.mp spelled
    obtain ⟨position, _, rfl, spelledEnd⟩ := exists_first spelledMark
    obtain rfl := List.map_eq_nil_iff.mp spelledEnd
    have fits : inner.depth ≤ levels + 1 := by rwa [depth] at fits
    refine ⟨by rintro ⟨⟩, fun rest behind => ?_⟩
    have head := (ih fits spelledInner).1 isHead (⟨.mark .question, position⟩ :: rest)
      (lacks_of_mark rfl (by decide))
    rw [List.append_assoc, List.singleton_append, readTypeBody, head, ok_bind]
    simp only [takeMark?_cons]
  | @array element rank positive readable ih =>
    obtain ⟨ts, brackets, rfl, spelledElement, spelledBrackets⟩ :=
      List.map_eq_append_iff.mp spelled
    have fits : element.depth ≤ levels + 1 := by rwa [depth] at fits
    refine ⟨by rintro ⟨⟩, fun rest behind => ?_⟩
    have bracket : Lacks [.less, .dot, .question] (brackets ++ rest) := by
      obtain ⟨_, _, rfl, -⟩ := exists_first spelledBrackets
      exact lacks_of_mark rfl (by decide)
    rw [List.append_assoc, (ih fits spelledElement).2 _ bracket,
      readRanks_array positive spelledBrackets]

/-- Every well-formed type is read back from its tokens. -/
theorem readTypeExpr_read {b : Bounds} {t : TypeExpr} (readable : t.Readable) {levels : Nat}
    (fits : t.depth ≤ levels) {ts rest : List Token} (spelled : ts.map (·.kind) = t.tokens)
    (behind : Lacks typeMarks rest) : readTypeExpr b levels (ts ++ rest) = .ok (t, rest) := by
  have positive := readable.depth_pos
  obtain ⟨below, rfl⟩ := Nat.exists_eq_add_one_of_ne_zero (n := levels) (by omega)
  rw [readTypeExpr, (readable.read fits spelled).2 rest (behind.mono (by decide)),
    readRanks_eq_ok (behind.mono (by decide))]

namespace TypeExpr

theorem scannable_angled {args : List (List TokenKind)} (each : ∀ arg ∈ args, Scannable arg) :
    Scannable (angled args) := by
  cases args with
  | nil => exact .nil
  | cons first more =>
    exact .cons (.mark (by decide))
      (.append (.intercalate (by decide) each) (.mark (by decide)))

theorem scannable_argTokens {args : List TypeExpr} (each : ∀ t ∈ args, Scannable t.tokens) :
    Scannable (argTokens args) :=
  scannable_angled (List.forall_mem_map.mpr each)

theorem Readable.scannable {t : TypeExpr} (readable : t.Readable) : Scannable t.tokens := by
  induction readable with
  | keyword word => exact .single word (by simp)
  | @named isGlobal segments nonempty names first args ih =>
    rw [tokens_named]
    refine .append ?_ (.intercalate (by decide) (List.forall_mem_map.mpr fun s member => ?_))
    · cases isGlobal
      · exact .nil
      · exact .global
    · exact .cons (.single (names s member) (by simp))
        (scannable_argTokens (ih s member))
  | nullable head readable ih => exact .append ih (.mark (by decide))
  | @array element rank positive readable ih =>
    refine .append ih (.cons (.mark (by decide))
      (.append ⟨fun k member => ?_, ?_⟩ (.mark (by decide))))
    · rw [List.eq_of_mem_replicate member]
      trivial
    · induction rank - 1 with
      | zero => rfl
      | succ count ih => exact ih

/-- The types that a text can hold are those that are well formed. -/
theorem parsed_iff_readable {t : TypeExpr} : t.Parsed ↔ t.Readable := by
  refine ⟨Parsed.readable, fun readable => ?_⟩
  obtain ⟨scanned, scans, spelled⟩ :=
    scan_spellAll readable.scannable.spellable readable.scannable.isPhrased
  have read : readTypeExpr ⟨scanned.stop, 0⟩ t.depth (scanned.tokens ++ []) = .ok (t, []) :=
    readTypeExpr_read readable (Nat.le_refl _) spelled nofun
  rw [List.append_nil] at read
  exact ⟨_, scanned, scans, _, _, _, _, List.suffix_rfl, read⟩

end TypeExpr

end DebugExpr.Source
