import DebugExpr.Proofs.JoinDepths

/-! Code that control cannot reach. The encoder is compared with itself: one session is served as it
is, and the same session is served without the instructions that were requested behind a branch or a
return and before the next label. The two encoders have the same notes and the same labels
throughout, and the same depth wherever control is, unless dead code leaves a trace. It can leave
one in two ways: a branch in it notes a depth for its label, and a label placed behind it with no
depth noted takes the depth of the dead code. -/
namespace DebugExpr.Code
open Metadata Encode

/-- The request is for an instruction. -/
def Call.isCode : Call → Bool
  | newLabel | placeLabel _ | newLocal _ => false
  | _ => true

namespace Encoder

/-- The request is for an instruction that control cannot reach. -/
def skips (e : Encoder) (c : Call) : Bool :=
  c.isCode && e.unreachable

/-- The session without the instructions that control cannot reach. -/
def live (e : Encoder) : List Call → List Call
  | [] => []
  | c :: rest => if e.skips c then (c.next e).live rest else c :: (c.next e).live rest

theorem live_append {e : Encoder} {first second : List Call} :
    e.live (first ++ second) = e.live first ++ (e.serve first).live second := by
  induction first generalizing e with
  | nil => rfl
  | cons c rest ih =>
    simp only [List.cons_append, live, ih, serve_cons]
    split <;> rfl

theorem live_concat {e : Encoder} {calls : List Call} {c : Call} :
    e.live (calls ++ [c]) = e.live calls ++ if (e.serve calls).skips c then [] else [c] := by
  rw [live_append]
  rfl

end Encoder

/-- Dead code leaves no trace. In it branches go only to labels that have a depth noted. A label
placed behind it has one noted too, or the dead code ends at the depth at which it begins. -/
structure Traceless (start : Encoder) (calls : List Call) : Prop where
  branches : ∀ {k : Nat} {mnemonic : String} {label : Label},
    calls[k]? = some (.branch mnemonic label) → (start.serve (calls.take k)).unreachable = true →
    ((start.serve (calls.take k)).expectedDepth? label).isSome = true
  places : ∀ {k : Nat} {label : Label},
    calls[k]? = some (.placeLabel label) → (start.serve (calls.take k)).unreachable = true →
    ((start.serve (calls.take k)).expectedDepth? label).isSome = true ∨
      (start.serve (calls.take k)).depth = (start.serve (start.live (calls.take k))).depth

section Traceless
variable {start : Encoder} {calls : List Call} {c : Call}

theorem Traceless.before (traceless : Traceless start (calls ++ [c])) : Traceless start calls := by
  constructor
  · intro k mnemonic label isBranch dead
    have inside := (List.getElem?_eq_some_iff.mp isBranch).1
    have noted := traceless.branches (k := k)
      (by rwa [List.getElem?_append_left inside])
    rw [List.take_append_of_le_length (Nat.le_of_lt inside)] at noted
    exact noted dead
  · intro k label isPlace dead
    have inside := (List.getElem?_eq_some_iff.mp isPlace).1
    have noted := traceless.places (k := k)
      (by rwa [List.getElem?_append_left inside])
    rw [List.take_append_of_le_length (Nat.le_of_lt inside)] at noted
    exact noted dead

theorem Traceless.branch {mnemonic : String} {label : Label}
    (traceless : Traceless start (calls ++ [.branch mnemonic label]))
    (dead : (start.serve calls).unreachable = true) :
    ((start.serve calls).expectedDepth? label).isSome = true := by
  have noted := @traceless.branches calls.length mnemonic label (by simp)
  rw [List.take_left] at noted
  exact noted dead

theorem Traceless.place {label : Label} (traceless : Traceless start (calls ++ [.placeLabel label]))
    (dead : (start.serve calls).unreachable = true) :
    ((start.serve calls).expectedDepth? label).isSome = true ∨
      (start.serve calls).depth = (start.serve (start.live calls)).depth := by
  have noted := @traceless.places calls.length label (by simp)
  rw [List.take_left] at noted
  exact noted dead

end Traceless

/-- Encoders that have the same labels placed, the same slots and the same notes, at depths that are
related. Their instructions may differ. -/
structure Alike (depths : Int → Int → Prop) (e e' : Encoder) : Prop where
  labels : e.labels.map Option.isSome = e'.labels.map Option.isSome
  locals : e.locals = e'.locals
  depth : depths e.depth e'.depth
  branchDepths : e.branchDepths = e'.branchDepths
  unreachable : e.unreachable = e'.unreachable

section Alike
variable {depths depths' : Int → Int → Prop} {e e' : Encoder}

theorem Alike.refl (reflexive : ∀ depth, depths depth depth) (e : Encoder) : Alike depths e e :=
  ⟨rfl, rfl, reflexive _, rfl, rfl⟩

theorem Alike.weaken (alike : Alike depths e e') (related : depths' e.depth e'.depth) :
    Alike depths' e e' :=
  ⟨alike.labels, alike.locals, related, alike.branchDepths, alike.unreachable⟩

theorem Alike.size (alike : Alike depths e e') : e.labels.size = e'.labels.size := by
  simpa using congrArg Array.size alike.labels

theorem Alike.expected (alike : Alike depths e e') (label : Label) :
    e.expectedDepth? label = e'.expectedDepth? label := by
  rw [Encoder.expectedDepth?, alike.branchDepths, Encoder.expectedDepth?]

theorem Alike.isPlaced (alike : Alike depths e e') (label : Label) :
    (e.labels.getD label.id none).isSome = (e'.labels.getD label.id none).isSome := by
  have same := congrArg (fun labels => (labels[label.id]?).getD false) alike.labels
  have placed (labels : Array (Option Nat)) :
      ((labels.map Option.isSome)[label.id]?).getD false =
        (labels.getD label.id none).isSome := by
    rw [Array.getElem?_map, Array.getD_eq_getD_getElem?]
    cases labels[label.id]? <;> rfl
  simpa only [placed] using same

end Alike

namespace Encode
variable {α β : Type} {depths : Int → Int → Prop}

/-- The same answer and, behind a success, encoders that are alike. -/
def Agree (depths : Int → Int → Prop) (r r' : Except Fault α × Encoder) : Prop :=
  r.1 = r'.1 ∧ ∀ a, r.1 = .ok a → Alike depths r.2 r'.2

theorem Agree.ok {e e' : Encoder} {a : α} (alike : Alike depths e e') :
    Agree depths (.ok a, e) (.ok a, e') :=
  ⟨rfl, fun _ _ => alike⟩

theorem Agree.error {e e' : Encoder} {fault : Fault} :
    Agree depths ((.error fault, e) : Except Fault α × Encoder) (.error fault, e') :=
  ⟨rfl, nofun⟩

theorem Agree.ite {condition : Prop} [Decidable condition] {r r' s s' : Except Fault α × Encoder}
    (holds : condition → Agree depths r r') (fails : ¬ condition → Agree depths s s') :
    Agree depths (if condition then r else s) (if condition then r' else s') := by
  split
  · exact holds ‹_›
  · exact fails ‹_›

/-- From encoders that are alike the step gives the same answer and encoders that are alike. -/
def Paired (depths : Int → Int → Prop) (p : Encode α) : Prop :=
  ∀ ⦃e e' : Encoder⦄, Alike depths e e' → Agree depths (result p e) (result p e')

theorem Paired.bind {p : Encode α} {f : α → Encode β} (first : Paired depths p)
    (second : ∀ a, Paired depths (f a)) : Paired depths (p >>= f) := by
  intro e e' alike
  have agree := first alike
  rw [result_bind, result_bind]
  generalize result p e = r at agree
  generalize result p e' = r' at agree
  obtain ⟨answer, middle⟩ := r
  obtain ⟨answer', middle'⟩ := r'
  obtain ⟨same, between⟩ := agree
  obtain rfl : answer = answer' := same
  cases answer with
  | error fault => exact .error
  | ok a => exact second a (between a rfl)

theorem paired_throw (fault : Fault) : Paired depths (throw fault : Encode α) :=
  fun _ _ _ => .error

theorem paired_pure (a : α) : Paired depths (pure a : Encode α) :=
  fun _ _ alike => .ok alike

theorem Paired.ite {condition : Prop} [Decidable condition] {p q : Encode α}
    (holds : Paired depths p) (fails : Paired depths q) :
    Paired depths (if condition then p else q) := by
  split
  · exact holds
  · exact fails

theorem paired_push (item : Item) : Paired depths (push item) :=
  fun _ _ alike =>
    .ok ⟨alike.labels, alike.locals, alike.depth, alike.branchDepths, alike.unreachable⟩

theorem paired_unreach : Paired depths (modify fun e => { e with unreachable := true }) :=
  fun _ _ alike => .ok ⟨alike.labels, alike.locals, alike.depth, alike.branchDepths, rfl⟩

theorem paired_requireLabel (label : Label) : Paired depths (requireLabel label) := by
  intro e e' alike
  unfold requireLabel
  simp only [result_bind, result_get, result_ite, result_throw, result_pure, alike.size]
  exact .ite (fun _ => .error) fun _ => .ok alike

theorem paired_newLabel : Paired depths (Functor.discard newLabel) := by
  intro e e' alike
  refine .ok ⟨?_, alike.locals, alike.depth, alike.branchDepths, alike.unreachable⟩
  rw [Array.map_push, Array.map_push, alike.labels]

theorem paired_newLocal (type : ClosedType) :
    Paired depths (Functor.discard (newLocal type)) := by
  have split : Functor.discard (newLocal type) = newLocal type >>= fun _ => pure () :=
    rfl
  rw [split]
  refine Paired.bind ?_ fun _ => paired_pure _
  intro e e' alike
  unfold newLocal
  simp only [result_bind, result_get, result_ite, result_throw, result_pure, result_set,
    alike.locals]
  exact .ite (fun _ => .error) fun _ =>
    .ok ⟨alike.labels, rfl, alike.depth, alike.branchDepths, alike.unreachable⟩

theorem paired_adjust (pops pushes : Nat) : Paired Eq (adjust pops pushes) := by
  intro e e' alike
  unfold adjust
  simp only [result_bind, result_modify, result_get, result_ite, result_set, result_throw,
    alike.depth, alike.unreachable]
  refine .ite (fun _ => .ite (fun _ => .error) fun _ => .ite (fun _ => .error) fun _ => ?_)
    fun _ => .ite (fun _ => .error) fun _ => ?_
  all_goals exact .ok ⟨alike.labels, alike.locals, rfl, alike.branchDepths, rfl⟩

theorem paired_noteBranch (label : Label) : Paired Eq (noteBranch label) := by
  intro e e' alike
  unfold noteBranch
  simp only [result_bind, result_get, alike.expected label, alike.depth]
  cases e'.expectedDepth? label with
  | none =>
    exact .ok ⟨alike.labels, alike.locals, rfl, congrArg (List.cons _) alike.branchDepths,
      alike.unreachable⟩
  | some expected =>
    simp only [result_ite, result_throw, result_pure]
    exact .ite (fun _ => .error) fun _ => .ok alike

theorem paired_emit (op : Opcode) (operand : Operand) : Paired Eq (emit op operand) := by
  unfold emit
  cases op.info.effect with
  | byCaller => exact paired_throw _
  | fixed pops pushes =>
    have straight : Paired Eq (do push (.plain op operand); adjust pops pushes) :=
      (paired_push _).bind fun _ => paired_adjust pops pushes
    exact .ite (paired_throw _) (.ite (paired_throw _) straight)

theorem paired_call (op : Opcode) (member : String) (pops pushes : Nat) :
    Paired Eq (call op member pops pushes) := by
  unfold call
  refine .ite (paired_throw _) ((paired_push _).bind fun _ => ?_)
  exact .ite (paired_throw _) (.ite (paired_throw _) (paired_adjust pops pushes))

theorem paired_branch (op : Opcode) (label : Label) : Paired Eq (branch op label) := by
  unfold branch
  cases Condition.ofLong? op with
  | none => exact paired_throw _
  | some condition =>
    refine (paired_requireLabel label).bind fun _ => (paired_push _).bind fun _ => ?_
    refine (paired_adjust condition.pops 0).bind fun _ => (paired_noteBranch label).bind fun _ => ?_
    exact .ite paired_unreach (paired_pure ())

theorem paired_ret (hasValue : Bool) : Paired Eq (ret hasValue) := by
  unfold ret
  refine (paired_push _).bind fun _ => (paired_adjust _ 0).bind fun _ e e' alike => ?_
  simp only [result_bind, result_get, result_ite, result_throw, result_set, alike.depth,
    alike.unreachable]
  exact .ite (fun _ => .error)
    fun _ => .ok ⟨alike.labels, alike.locals, rfl, alike.branchDepths, rfl⟩

theorem result_placeLabel (label : Label) (e : Encoder) :
    result (placeLabel label) e =
      if label.id ≥ e.labels.size then (.error (.unknownLabel label), e)
      else if (e.labels.getD label.id none).isSome then (.error (.duplicateLabel label), e)
      else
        let placed := { e with labels := e.labels.setIfInBounds label.id (some e.items.size) }
        match e.expectedDepth? label with
        | none => (.ok (), { placed with unreachable := false })
        | some expected =>
          if e.unreachable then (.ok (), { placed with depth := expected, unreachable := false })
          else if e.depth ≠ expected then
            (.error (.labelDepthMismatch label expected e.depth), placed)
          else (.ok (), { placed with unreachable := false }) := by
  unfold placeLabel requireLabel
  by_cases unknown : label.id ≥ e.labels.size
  · simp only [result_bind, result_get, result_throw, unknown, if_true]
  · by_cases placed : (e.labels.getD label.id none).isSome = true
    · simp only [result_bind, result_get, result_throw, result_pure, unknown, placed, if_true,
        if_false]
    · simp only [result_bind, result_get, result_pure, unknown, placed, if_false]
      cases e.expectedDepth? label with
      | none => rfl
      | some expected =>
        by_cases level : e.depth = expected
        · cases e.unreachable <;> simp [level] <;> rfl
        · cases e.unreachable <;> simp [level] <;> rfl

/-- A label is placed alike also at depths that differ, if control does not fall through to it and a
depth is noted for it; behind it the depths agree. -/
theorem placeLabel_agree {e e' : Encoder} (label : Label) (alike : Alike depths e e')
    (level : e.depth = e'.depth ∨
      e.unreachable = true ∧ (e.expectedDepth? label).isSome = true) :
    Agree Eq (result (placeLabel label) e) (result (placeLabel label) e') := by
  have labels : (e.labels.setIfInBounds label.id (some e.items.size)).map Option.isSome =
      (e'.labels.setIfInBounds label.id (some e'.items.size)).map Option.isSome := by
    rw [Array.map_setIfInBounds, Array.map_setIfInBounds, alike.labels]
    rfl
  simp only [result_placeLabel, alike.size, alike.isPlaced label]
  refine .ite (fun _ => .error) fun _ => .ite (fun _ => .error) fun _ => ?_
  rw [← alike.expected label, ← alike.unreachable]
  cases noted : e.expectedDepth? label with
  | none =>
    obtain same | ⟨-, isNoted⟩ := level
    · exact .ok ⟨labels, alike.locals, same, alike.branchDepths, rfl⟩
    · simp [noted] at isNoted
  | some expected =>
    refine .ite (fun _ => .ok ⟨labels, alike.locals, rfl, alike.branchDepths, rfl⟩) fun live => ?_
    obtain same | ⟨dead, -⟩ := level
    · rw [same]
      exact .ite (fun _ => .error) fun _ => .ok ⟨labels, alike.locals, rfl, alike.branchDepths, rfl⟩
    · exact absurd dead live

theorem paired_placeLabel (label : Label) : Paired Eq (placeLabel label) :=
  fun _ _ alike => placeLabel_agree label alike (.inl alike.depth)

theorem paired_withOpcode {mnemonic : String} {step : Opcode → Encode Unit}
    (paired : ∀ op, Paired depths (step op)) : Paired depths (withOpcode mnemonic step) := by
  unfold withOpcode
  cases Opcode.ofMnemonic mnemonic with
  | error fault => exact paired_throw fault
  | ok op => exact paired op

theorem noteBranch_of_noted {label : Label} {e : Encoder}
    (noted : (e.expectedDepth? label).isSome = true) :
    ∃ answer, result (noteBranch label) e = (answer, e) := by
  obtain ⟨expected, noted⟩ := Option.isSome_iff_exists.mp noted
  by_cases level : expected = e.depth
  · exact ⟨.ok (), by simp [noteBranch, result_bind, noted, level]⟩
  · exact ⟨.error (.branchDepthMismatch label expected e.depth),
      by simp [noteBranch, result_bind, noted, level]⟩

/-- A branch in dead code whose label has a depth noted changes no note. -/
theorem branch_dead {op : Opcode} {label : Label} {e : Encoder} (dead : e.unreachable = true)
    (noted : (e.expectedDepth? label).isSome = true) :
    ∃ items depth maxDepth, (result (branch op label) e).2 = { e with items, depth, maxDepth } := by
  unfold branch requireLabel
  cases Condition.ofLong? op with
  | none => exact ⟨_, _, _, rfl⟩
  | some condition =>
    by_cases unknown : label.id ≥ e.labels.size
    · exact ⟨e.items, e.depth, e.maxDepth, by simp [result_bind, unknown]⟩
    · obtain ⟨moved, depth, maxDepth, moves, -⟩ := adjust_writes condition.pops 0
        { e with items := e.items.push (.branch condition false label) }
      obtain ⟨answer, notes⟩ := @noteBranch_of_noted label { e with
        items := e.items.push (.branch condition false label), depth, maxDepth } noted
      simp only [result_bind, result_get, result_ite, unknown, push, result_modify, result_pure,
        if_false, moves]
      cases moved with
      | error fault => exact ⟨_, _, _, rfl⟩
      | ok =>
        simp only [notes]
        cases answer with
        | error fault => exact ⟨_, _, _, rfl⟩
        | ok =>
          refine ⟨e.items.push (.branch condition false label), depth, maxDepth, ?_⟩
          by_cases always : condition = .always <;> simp [always, dead]

end Encode

namespace Call
variable {c : Call} {e e' : Encoder}

/-- Encoders that are alike at the same depth meet every request alike. -/
theorem paired (c : Call) : Paired Eq c.perform := by
  cases c with
  | emit mnemonic operand => exact paired_withOpcode fun op => paired_emit op operand
  | call mnemonic member pops pushes =>
    exact paired_withOpcode fun op => paired_call op member pops.toNat pushes.toNat
  | branch mnemonic label => exact paired_withOpcode fun op => paired_branch op label
  | ret hasValue => exact paired_ret hasValue
  | newLabel => exact paired_newLabel
  | placeLabel label => exact paired_placeLabel label
  | newLocal type => exact paired_newLocal type
  | pushInt32 value | pushInt64 value | loadLocal index | storeLocal index
  | loadLocalAddress index | loadArgument index | storeArgument index
  | loadArgumentAddress index => exact paired_emit _ _

theorem next_of_result {answer : Except Fault Unit}
    (performs : result c.perform e = (answer, e')) : c.next e = e' := by
  rw [next, performs]

theorem next_of_emit {op : Opcode} {operand : Operand}
    (performs : result c.perform e = result (Encode.emit op operand) e) :
    ∃ items depth maxDepth, c.next e = { e with items, depth, maxDepth } := by
  obtain ⟨fault, refused⟩ | ⟨-, _, _, _, writes, -⟩ := emit_writes op operand e
  · exact ⟨_, _, _, next_of_result (performs.trans refused)⟩
  · exact ⟨_, _, _, next_of_result (performs.trans writes)⟩

/-- An instruction in dead code changes no label, no slot and no note. -/
theorem next_of_dead (code : c.isCode = true) (dead : e.unreachable = true)
    (noted : ∀ mnemonic label, c = .branch mnemonic label →
      (e.expectedDepth? label).isSome = true) (met : (result c.perform e).1 = .ok ()) :
    ∃ items depth maxDepth, c.next e = { e with items, depth, maxDepth } := by
  cases c with
  | newLabel | placeLabel _ | newLocal _ => cases code
  | emit mnemonic operand =>
    obtain ⟨fault, refused⟩ | ⟨op, -, performs⟩ :=
      withOpcode_result (fun op => Encode.emit op operand) e
    · exact ⟨_, _, _, next_of_result refused⟩
    · exact next_of_emit performs
  | call mnemonic member pops pushes =>
    obtain ⟨fault, refused⟩ | ⟨op, -, performs⟩ :=
      withOpcode_result (fun op => Encode.call op member pops.toNat pushes.toNat) e
    · exact ⟨_, _, _, next_of_result refused⟩
    · obtain ⟨fault, refused⟩ | ⟨-, _, _, _, writes, -⟩ :=
        call_writes op member pops.toNat pushes.toNat e
      · exact ⟨_, _, _, next_of_result (performs.trans refused)⟩
      · exact ⟨_, _, _, next_of_result (performs.trans writes)⟩
  | branch mnemonic label =>
    obtain ⟨fault, refused⟩ | ⟨op, -, performs⟩ :=
      withOpcode_result (fun op => Encode.branch op label) e
    · exact ⟨_, _, _, next_of_result refused⟩
    · rw [next, perform, performs]
      exact branch_dead dead (noted mnemonic label rfl)
  | ret hasValue =>
    obtain ⟨answer, depth, maxDepth, unreachable, writes, ends⟩ := ret_writes hasValue e
    rw [perform, writes] at met
    obtain ⟨rfl, -⟩ := ends met
    have ended : (Call.ret hasValue).next e = _ := next_of_result writes
    exact ⟨_, depth, maxDepth, ended.trans (by rw [dead])⟩
  | pushInt64 value => exact @next_of_emit _ _ .ldcI8 (.int64 value) rfl
  | pushInt32 value | loadLocal index | storeLocal index | loadLocalAddress index
  | loadArgument index | storeArgument index | loadArgumentAddress index => exact next_of_emit rfl

end Call

/-- The encoder of a session, and that of the session without its dead code. -/
abbrev Shadow (e e' : Encoder) : Prop :=
  Alike (fun depth depth' => e.unreachable = false → depth = depth') e e'

namespace Shadow
variable {e e' : Encoder} {c : Call}

theorem skip (shadow : Shadow e e') (skips : e.skips c = true)
    (noted : ∀ mnemonic label, c = .branch mnemonic label →
      (e.expectedDepth? label).isSome = true) (met : (result c.perform e).1 = .ok ()) :
    Shadow (c.next e) e' := by
  obtain ⟨code, dead⟩ := Bool.and_eq_true_iff.mp skips
  obtain ⟨items, depth, maxDepth, next⟩ := Call.next_of_dead code dead noted met
  rw [next]
  exact ⟨shadow.labels, shadow.locals, by simp [dead], shadow.branchDepths, shadow.unreachable⟩

/-- A request that is not for dead code is met alike. -/
theorem answers (shadow : Shadow e e') (remains : e.skips c = false)
    (noted : ∀ label, c = .placeLabel label → e.unreachable = true →
      (e.expectedDepth? label).isSome = true ∨ e.depth = e'.depth) :
    (result c.perform e).1 = (result c.perform e').1 ∧
      ((result c.perform e).1 = .ok () → Shadow (c.next e) (c.next e')) := by
  by_cases level : e.depth = e'.depth
  · obtain ⟨same, alike⟩ := c.paired (shadow.weaken level)
    exact ⟨same, fun met => (alike () met).weaken fun _ => (alike () met).depth⟩
  · have dead : e.unreachable = true := by
      simpa using mt shadow.depth level
    cases c with
    | newLabel =>
      obtain ⟨same, alike⟩ := paired_newLabel shadow
      exact ⟨same, alike ()⟩
    | newLocal type =>
      obtain ⟨same, alike⟩ := paired_newLocal type shadow
      have kept : (result (Functor.discard (newLocal type)) e).2.unreachable = true := by
        obtain ⟨fault, refused⟩ | taken := newLocal_writes type e
        · rw [refused]
          exact dead
        · rw [taken]
          exact dead
      refine ⟨same, fun met => (alike () met).weaken fun reachable => ?_⟩
      exact absurd (kept.symm.trans reachable) nofun
    | placeLabel label =>
      have isNoted := (noted label rfl dead).resolve_right level
      obtain ⟨same, alike⟩ := placeLabel_agree label shadow (.inr ⟨dead, isNoted⟩)
      exact ⟨same, fun met => (alike () met).weaken fun _ => (alike () met).depth⟩
    | _ => simp [Encoder.skips, Call.isCode, dead] at remains

end Shadow

section Sessions
variable {start : Encoder} {calls : List Call}

theorem shadow_serve (accepted : start.Accepts calls) (traceless : Traceless start calls) :
    start.Accepts (start.live calls) ∧
      Shadow (start.serve calls) (start.serve (start.live calls)) := by
  induction calls using List.reverseRecOn with
  | nil => exact ⟨trivial, .refl (fun _ _ => rfl) start⟩
  | append_singleton before c ih =>
    obtain ⟨first, last⟩ := Encoder.accepts_append.mp accepted
    obtain ⟨remaining, shadow⟩ := ih first traceless.before
    rw [Encoder.live_concat, Encoder.serve_append]
    cases skips : (start.serve before).skips c with
    | true =>
      rw [if_pos rfl, List.append_nil]
      refine ⟨remaining, shadow.skip skips ?_ last.1⟩
      rintro mnemonic label rfl
      exact traceless.branch (Bool.and_eq_true_iff.mp skips).2
    | false =>
      rw [if_neg Bool.false_ne_true, Encoder.serve_append]
      obtain ⟨same, next⟩ := shadow.answers skips (by rintro label rfl; exact traceless.place)
      exact ⟨Encoder.accepts_append.mpr ⟨remaining, same ▸ last.1, trivial⟩, next last.1⟩

/-- A method is finished just when all labels are placed. -/
theorem finish_isOk (e : Encoder) (returnType : Option ClosedType) :
    (e.finish returnType).isOk = (e.labels.map Option.isSome).all id := by
  cases finished : e.finish returnType with
  | ok m =>
    obtain ⟨marks, labels⟩ := marks_of_finish finished
    rw [← Array.all_toList, Array.toList_map, labels]
    simp [Except.isOk, Except.toBool]
  | error fault =>
    refine (Bool.eq_false_iff.mpr fun placed => ?_).symm
    have all : ∀ index ∈ e.labels.toList, index ≠ none := by
      rintro index member rfl
      rw [← Array.all_toList, Array.toList_map, List.all_eq_true] at placed
      simpa using placed _ (List.mem_map_of_mem member)
    obtain ⟨marks, labels⟩ := exists_marks all
    rw [finish_eq labels returnType] at finished
    cases finished

/-- Dead code that leaves no trace has no influence. Without it all other requests are still met and
the same depths are noted, later requests get the same answers, and the method is finished or not as
before. -/
theorem dead_code_has_no_influence (accepted : start.Accepts calls)
    (traceless : Traceless start calls) :
    start.Accepts (start.live calls) ∧
      (∀ label, (start.serve (start.live calls)).expectedDepth? label =
        (start.serve calls).expectedDepth? label) ∧
      (∀ c, (start.serve calls).skips c = false → Traceless start (calls ++ [c]) →
        (result c.perform (start.serve (start.live calls))).1 =
          (result c.perform (start.serve calls)).1) ∧
      ∀ returnType, ((start.serve (start.live calls)).finish returnType).isOk =
        ((start.serve calls).finish returnType).isOk := by
  obtain ⟨remaining, shadow⟩ := shadow_serve accepted traceless
  refine ⟨remaining, fun label => (shadow.expected label).symm, ?_, fun returnType => ?_⟩
  · intro c remains further
    obtain ⟨same, -⟩ := shadow.answers remains (by rintro label rfl; exact further.place)
    exact same.symm
  · rw [finish_isOk, finish_isOk, shadow.labels]

end Sessions

/-- Behind a branch this session loads a value and returns. -/
def skippedCalls : List Call :=
  [.newLabel, .branch "br" ⟨0⟩, .pushInt32 1, .ret false, .placeLabel ⟨0⟩]

theorem skippedCalls_traceless : Traceless (.ofLocals []) (skippedCalls ++ [.ret false]) := by
  constructor
  · intro k mnemonic label isBranch dead
    obtain rfl : k = 1 := by
      rcases k with _ | _ | _ | _ | _ | _ | k <;> simp [skippedCalls] at isBranch ⊢
    cases dead
  · intro k label isPlace dead
    obtain rfl : k = 4 := by
      rcases k with _ | _ | _ | _ | _ | _ | k <;> simp [skippedCalls] at isPlace ⊢
    obtain rfl : ⟨0⟩ = label := by simpa [skippedCalls] using isPlace
    exact .inl rfl

theorem skippedCalls_accepted : (Encoder.ofLocals []).Accepts skippedCalls :=
  ⟨rfl, rfl, rfl, rfl, rfl, trivial⟩

theorem skippedCalls_have_no_influence :
    let start := Encoder.ofLocals []
    start.Accepts skippedCalls ∧ Traceless start skippedCalls ∧
      start.live skippedCalls = [.newLabel, .branch "br" ⟨0⟩, .placeLabel ⟨0⟩] ∧
      (start.serve skippedCalls).skips (.ret false) = false ∧
      (result (Call.ret false).perform (start.serve (start.live skippedCalls))).1 =
        (result (Call.ret false).perform (start.serve skippedCalls)).1 := by
  have traceless := skippedCalls_traceless.before
  obtain ⟨-, -, later, -⟩ := dead_code_has_no_influence skippedCalls_accepted traceless
  have remains : ((Encoder.ofLocals []).serve skippedCalls).skips (.ret false) = false := rfl
  exact ⟨skippedCalls_accepted, traceless, rfl, remains, later _ remains skippedCalls_traceless⟩

/-- Behind a branch this session loads a value and branches to a label that has no depth noted. -/
def strayCalls : List Call :=
  [.newLabel, .newLabel, .branch "br" ⟨1⟩, .emit "ldnull" .none, .branch "br" ⟨0⟩,
    .placeLabel ⟨1⟩]

/-- Dead code does have influence: behind these requests a branch to the first label is refused, and
without the dead code it is made. -/
theorem strayCalls_have_influence :
    ¬ ∀ (locals : List ClosedType) (calls : List Call) (c : Call),
      (Encoder.ofLocals locals).Accepts calls →
      ((Encoder.ofLocals locals).serve calls).skips c = false →
      (result c.perform
        ((Encoder.ofLocals locals).serve ((Encoder.ofLocals locals).live calls))).1 =
        (result c.perform ((Encoder.ofLocals locals).serve calls)).1 := by
  intro same
  have accepted : (Encoder.ofLocals []).Accepts strayCalls :=
    ⟨rfl, rfl, rfl, rfl, rfl, rfl, trivial⟩
  have made : (result (Call.branch "br" ⟨0⟩).perform
      ((Encoder.ofLocals []).serve ((Encoder.ofLocals []).live strayCalls))).1 = .ok () := rfl
  have refused : (result (Call.branch "br" ⟨0⟩).perform
      ((Encoder.ofLocals []).serve strayCalls)).1 =
      .error (.branchDepthMismatch ⟨0⟩ 1 0) := rfl
  have answers := same [] strayCalls (.branch "br" ⟨0⟩) accepted rfl
  rw [made, refused] at answers
  cases answers

end DebugExpr.Code
