import DebugExpr.Proofs.Encoding

/-! Sessions with the encoder: lists of requests of any kind, made one after the other on one
encoder, whether control reaches the code or not. A request may fail, and what it had changed before
stays. One rule, `Call.writes`, says all that a request can do; what holds of every session is
proved from it by induction. -/
namespace DebugExpr.Code
open Metadata Encode

/-- A request to the encoder. -/
inductive Call where
  | emit (mnemonic : String) (operand : Operand)
  | call (mnemonic member : String) (pops pushes : UInt16)
  | branch (mnemonic : String) (label : Label)
  | ret (hasValue : Bool)
  | newLabel
  | placeLabel (label : Label)
  | newLocal (type : ClosedType)
  | pushInt32 (value : Int32)
  | pushInt64 (value : Int64)
  | loadLocal (index : UInt16)
  | storeLocal (index : UInt16)
  | loadLocalAddress (index : UInt16)
  | loadArgument (index : UInt16)
  | storeArgument (index : UInt16)
  | loadArgumentAddress (index : UInt16)

/-- Goes on with the instruction of a mnemonic. -/
def withOpcode (mnemonic : String) (step : Opcode → Encode Unit) : Encode Unit :=
  match Opcode.ofMnemonic mnemonic with
  | .ok op => step op
  | .error fault => throw fault

namespace Call

/-- What the encoder does on a request. The answers, a label or a slot, are numbered in order. -/
def perform : Call → Encode Unit
  | emit mnemonic operand => withOpcode mnemonic fun op => Encode.emit op operand
  | call mnemonic member pops pushes =>
    withOpcode mnemonic fun op => Encode.call op member pops.toNat pushes.toNat
  | branch mnemonic label => withOpcode mnemonic fun op => Encode.branch op label
  | ret hasValue => Encode.ret hasValue
  | newLabel => discard Encode.newLabel
  | placeLabel label => Encode.placeLabel label
  | newLocal type => discard (Encode.newLocal type)
  | pushInt32 value => Encode.pushInt32 value
  | pushInt64 value => Encode.pushInt64 value
  | loadLocal index => Encode.loadLocal index.toNat
  | storeLocal index => Encode.storeLocal index.toNat
  | loadLocalAddress index => Encode.loadLocalAddress index.toNat
  | loadArgument index => Encode.loadArgument index.toNat
  | storeArgument index => Encode.storeArgument index.toNat
  | loadArgumentAddress index => Encode.loadArgumentAddress index.toNat

/-- The effect on the stack of the instruction that a request is for. -/
def effect? : Call → Option Effect
  | emit mnemonic _ | branch mnemonic _ => (Opcode.ofMnemonic? mnemonic).map Opcode.effect
  | call _ _ pops pushes => some ⟨pops.toNat, pushes.toNat⟩
  | ret hasValue => some ⟨if hasValue then 1 else 0, 0⟩
  | newLabel | placeLabel _ | newLocal _ => none
  | pushInt32 value => some (Form.int32 value).opcode.effect
  | pushInt64 value => some (Form.int64 value).opcode.effect
  | loadLocal index => some (Form.loadLocal index.toNat).opcode.effect
  | storeLocal index => some (Form.storeLocal index.toNat).opcode.effect
  | loadLocalAddress index => some (Form.loadLocalAddress index.toNat).opcode.effect
  | loadArgument index => some (Form.loadArgument index.toNat).opcode.effect
  | storeArgument index => some (Form.storeArgument index.toNat).opcode.effect
  | loadArgumentAddress index => some (Form.loadArgumentAddress index.toNat).opcode.effect

/-- The encoder behind a request, whether the request succeeds or not. -/
def next (c : Call) (e : Encoder) : Encoder :=
  (result c.perform e).2

end Call

/-- The encoder behind a session. -/
def Encoder.serve (e : Encoder) (calls : List Call) : Encoder :=
  calls.foldl (fun e c => c.next e) e

namespace Encoder

@[simp]
theorem serve_nil (e : Encoder) : e.serve [] = e :=
  rfl

@[simp]
theorem serve_append (e : Encoder) (first second : List Call) :
    e.serve (first ++ second) = (e.serve first).serve second :=
  List.foldl_append

@[simp]
theorem serve_cons (e : Encoder) (c : Call) (rest : List Call) :
    e.serve (c :: rest) = (c.next e).serve rest :=
  rfl

end Encoder

namespace Encode
variable {α β : Type} {e : Encoder}

@[simp]
theorem result_pure (a : α) : result (pure a) e = (.ok a, e) :=
  rfl

@[simp]
theorem result_throw (fault : Fault) : result (throw fault : Encode α) e = (.error fault, e) :=
  rfl

@[simp]
theorem result_get : result get e = (.ok e, e) :=
  rfl

@[simp]
theorem result_set (next : Encoder) : result (set next) e = (.ok (), next) :=
  rfl

@[simp]
theorem result_modify (f : Encoder → Encoder) : result (modify f) e = (.ok (), f e) :=
  rfl

@[simp]
theorem result_ite (condition : Prop) [Decidable condition] (p q : Encode α) :
    result (if condition then p else q) e = if condition then result p e else result q e := by
  split <;> rfl

/-- Moving the depth changes nothing else, whether it succeeds or not, and where it succeeds the
depth is one that the encoder can hold. -/
theorem adjust_writes (takes leaves : Nat) (e : Encoder) :
    ∃ answer depth maxDepth,
      result (adjust takes leaves) e = (answer, { e with depth, maxDepth }) ∧
        (e.unreachable = false → depth = e.depth + Effect.net ⟨takes, leaves⟩) ∧
        (answer = .ok () → InRange depth) := by
  have moved : e.depth + leaves - takes = e.depth + Effect.net ⟨takes, leaves⟩ := by
    simp only [Effect.net]
    omega
  unfold adjust
  simp only [result_bind, result_modify, result_get, result_ite, result_set, result_throw, moved]
  cases reachable : e.unreachable with
  | false =>
    split
    · exact ⟨_, _, _, rfl, fun _ => rfl, by simp⟩
    · split
      · exact ⟨_, _, _, rfl, fun _ => rfl, by simp⟩
      · refine ⟨_, _, _, rfl, fun _ => rfl, fun _ => ?_⟩
        unfold InRange
        omega
  | true =>
    simp only [Bool.not_true, Bool.false_eq_true, if_false]
    split
    · exact ⟨_, _, _, rfl, by simp, fun _ => by simp [InRange, Encoder.depthLimit]⟩
    · split
      · exact ⟨_, _, _, rfl, by simp, by simp⟩
      · refine ⟨_, _, _, rfl, by simp, fun _ => ?_⟩
        unfold InRange
        omega

theorem emit_writes (op : Opcode) (operand : Operand) (e : Encoder) :
    (∃ fault, result (emit op operand) e = (.error fault, e)) ∨
      op.info.flow = .next ∧ ∃ answer depth maxDepth,
        result (emit op operand) e =
          (answer, { e with items := e.items.push (.plain op operand), depth, maxDepth }) ∧
        (e.unreachable = false → depth = e.depth + op.effect.net) ∧
        (answer = .ok () → InRange depth) := by
  unfold emit Opcode.effect push
  cases op.info.effect with
  | byCaller => exact .inl ⟨_, rfl⟩
  | fixed takes leaves =>
    by_cases flow : op.info.flow = .next
    · by_cases fits : operand.fits op.operand = true
      · refine .inr ⟨flow, ?_⟩
        simp only [flow, fits]
        exact adjust_writes takes leaves _
      · simp [flow, fits]
    · simp [flow]

theorem Callable.flow {op : Opcode} (callable : Callable op) : op.info.flow = .next := by
  obtain ⟨effect, operand⟩ := callable
  cases op <;> first | rfl | exact absurd effect (by decide) | exact absurd operand (by decide)

theorem call_writes (op : Opcode) (member : String) (takes leaves : Nat) (e : Encoder) :
    (∃ fault, result (call op member takes leaves) e = (.error fault, e)) ∨
      op.info.flow = .next ∧ ∃ answer depth maxDepth,
        result (call op member takes leaves) e =
          (answer, { e with items := e.items.push (.plain op (.member member)), depth, maxDepth }) ∧
        (answer = .ok () → (e.unreachable = false →
          depth = e.depth + Effect.net ⟨takes, leaves⟩) ∧ InRange depth) := by
  unfold call push
  by_cases refused : op.info.effect ≠ .byCaller ∨ op.operand ≠ .token
  · simp [refused]
  · have callable : Callable op := by simpa [Callable] using refused
    refine .inr ⟨callable.flow, ?_⟩
    simp only [result_bind, result_ite, refused, result_modify, result_throw, if_false]
    repeat' split
    · exact ⟨_, _, _, rfl, nofun⟩
    · exact ⟨_, _, _, rfl, nofun⟩
    · obtain ⟨answer, depth, maxDepth, writes, moves, inRange⟩ := adjust_writes takes leaves
        { e with items := e.items.push (.plain op (.member member)) }
      exact ⟨answer, depth, maxDepth, writes, fun accepted => ⟨moves, inRange accepted⟩⟩

theorem ret_writes (hasValue : Bool) (e : Encoder) :
    ∃ answer depth maxDepth unreachable, result (ret hasValue) e = (answer,
      { e with items := e.items.push (.plain .ret .none), depth, maxDepth, unreachable }) ∧
        (answer = .ok () → unreachable = true ∧ (e.unreachable = false →
          depth = e.depth + Effect.net ⟨if hasValue then 1 else 0, 0⟩) ∧ InRange depth) := by
  obtain ⟨answer, depth, maxDepth, writes, moves, inRange⟩ :=
    adjust_writes (if hasValue then 1 else 0) 0
      { e with items := e.items.push (.plain .ret .none) }
  have writes : result (do push (.plain .ret .none); adjust (if hasValue then 1 else 0) 0) e =
      (answer, { e with items := e.items.push (.plain .ret .none), depth, maxDepth }) := writes
  unfold ret
  rw [← bind_assoc, result_bind, writes]
  cases answer with
  | error fault => exact ⟨_, _, _, _, rfl, nofun⟩
  | ok =>
    simp only [result_bind, result_get, result_ite, result_set, result_throw]
    split
    · exact ⟨_, _, _, _, rfl, nofun⟩
    · exact ⟨_, _, _, _, rfl, fun _ => ⟨rfl, moves, inRange rfl⟩⟩

/-- A branch in its long form takes what its condition tests. -/
theorem effect_of_ofLong {op : Opcode} {condition : Condition}
    (long : Condition.ofLong? op = some condition) : op.effect = ⟨condition.pops, 0⟩ := by
  unfold Condition.ofLong? at long
  split at long <;> cases long <;> rfl

/-- The depth of a branch is noted, and no other note is lost or made. -/
theorem noteBranch_writes (label : Label) (e : Encoder) :
    ∃ answer branchDepths, result (noteBranch label) e = (answer, { e with branchDepths }) ∧
      (answer = .ok () → Encoder.expectedDepth? { e with branchDepths } label = some e.depth) ∧
      (∀ other depth, e.expectedDepth? other = some depth →
        Encoder.expectedDepth? { e with branchDepths } other = some depth) ∧
      ∀ noted ∈ branchDepths, noted ∈ e.branchDepths ∨ noted.2 = e.depth := by
  unfold noteBranch
  simp only [result_bind, result_get]
  cases noted : e.expectedDepth? label with
  | some expected =>
    by_cases same : expected = e.depth
    · subst same
      exact ⟨.ok (), e.branchDepths, by simp, fun _ => noted, fun _ _ => id, fun _ => .inl⟩
    · exact ⟨.error (.branchDepthMismatch label expected e.depth), e.branchDepths, by simp [same],
        by simp, fun _ _ => id, fun _ => .inl⟩
  | none =>
    refine ⟨.ok (), (label, e.depth) :: e.branchDepths, rfl, ?_, ?_, ?_⟩
    · simp [Encoder.expectedDepth?]
    · intro other depth older
      have differs : label ≠ other := by
        rintro rfl
        simp [noted] at older
      simpa [Encoder.expectedDepth?, differs] using older
    · rintro noted (_ | ⟨_, older⟩)
      · exact .inr rfl
      · exact .inl older

/-- What a branch that is made does, apart from its instruction. -/
structure Branched (e e' : Encoder) (condition : Condition) (label : Label) : Prop where
  unreachable : e'.unreachable = (decide (condition = .always) || e.unreachable)
  depth : e.unreachable = false → e'.depth = e.depth + Effect.net ⟨condition.pops, 0⟩
  inRange : InRange e'.depth
  noted : e'.expectedDepth? label = some e'.depth
  older : ∀ other depth, e.expectedDepth? other = some depth →
    e'.expectedDepth? other = some depth
  newer : ∀ noted ∈ e'.branchDepths, noted ∈ e.branchDepths ∨ noted.2 = e'.depth

theorem branch_writes (op : Opcode) (label : Label) (e : Encoder) :
    (∃ fault, result (branch op label) e = (.error fault, e)) ∨
      ∃ condition, op.effect = ⟨condition.pops, 0⟩ ∧ label.id < e.labels.size ∧
        ∃ answer e', result (branch op label) e = (answer, e') ∧
          e'.items = e.items.push (.branch condition false label) ∧ e'.labels = e.labels ∧
          (answer = .ok () → Branched e e' condition label) := by
  unfold branch requireLabel
  cases long : Condition.ofLong? op with
  | none => exact .inl ⟨_, rfl⟩
  | some condition =>
    by_cases unknown : label.id ≥ e.labels.size
    · exact .inl ⟨.unknownLabel label, by simp [result_bind, unknown]⟩
    · refine .inr ⟨condition, effect_of_ofLong long, Nat.lt_of_not_le unknown, ?_⟩
      obtain ⟨moved, depth, maxDepth, moves, net, inRange⟩ := adjust_writes condition.pops 0
        { e with items := e.items.push (.branch condition false label) }
      obtain ⟨answer, branchDepths, notes, noted, older, newer⟩ := noteBranch_writes label
        { e with items := e.items.push (.branch condition false label), depth, maxDepth }
      simp only [result_bind, result_get, result_ite, unknown, push, result_modify, result_pure,
        if_false, moves]
      cases moved with
      | error fault => exact ⟨_, _, rfl, rfl, rfl, fun accepted => by cases accepted⟩
      | ok =>
        simp only [notes]
        cases answer with
        | error fault => exact ⟨_, _, rfl, rfl, rfl, fun accepted => by cases accepted⟩
        | ok =>
          by_cases always : condition = .always
          · simp only [always, if_true]
            exact ⟨_, _, rfl, rfl, rfl, fun _ =>
              ⟨rfl, by simpa [always] using net, inRange rfl, noted rfl, older, newer⟩⟩
          · simp only [always, if_false]
            exact ⟨_, _, rfl, rfl, rfl, fun _ =>
              ⟨by simp [always], net, inRange rfl, noted rfl, older, newer⟩⟩

/-- What placing a label does where it is accepted, apart from the place. -/
structure Joined (e e' : Encoder) (label : Label) : Prop where
  unreachable : e'.unreachable = false
  depth : e.unreachable = false → e'.depth = e.depth
  branchDepths : e'.branchDepths = e.branchDepths
  noted : ∀ depth, e.expectedDepth? label = some depth → e'.depth = depth
  level : e'.depth = e.depth ∨ e.expectedDepth? label = some e'.depth

theorem placeLabel_writes (label : Label) (e : Encoder) :
    (∃ fault, result (placeLabel label) e = (.error fault, e)) ∨
      e.labels[label.id]? = some none ∧
        ∃ answer e', result (placeLabel label) e = (answer, e') ∧ e'.items = e.items ∧
          e'.labels = e.labels.setIfInBounds label.id (some e.items.size) ∧
          (answer = .ok () → Joined e e' label) := by
  unfold placeLabel requireLabel
  by_cases unknown : label.id ≥ e.labels.size
  · exact .inl ⟨.unknownLabel label, by simp [result_bind, unknown]⟩
  · by_cases placed : (e.labels.getD label.id none).isSome = true
    · refine .inl ⟨.duplicateLabel label, ?_⟩
      simp only [result_bind, result_get, unknown, placed, result_throw, result_pure, if_true,
        if_false]
    · refine .inr ⟨?_, ?_⟩
      · simpa [Array.getElem?_eq_getElem (Nat.lt_of_not_le unknown), Array.getD,
          Nat.lt_of_not_le unknown] using placed
      · simp only [result_bind, result_get, result_ite, unknown, placed, result_pure, if_false,
          result_set]
        cases noted : e.expectedDepth? label with
        | none =>
          exact ⟨_, _, rfl, rfl, rfl, fun _ =>
            ⟨rfl, fun _ => rfl, rfl, by simp [noted], .inl rfl⟩⟩
        | some expected =>
          cases reachable : e.unreachable with
          | true =>
            exact ⟨_, _, rfl, rfl, rfl, fun _ =>
              ⟨rfl, by simp [reachable], rfl, by simp [noted], .inr noted⟩⟩
          | false =>
            simp only [result_bind, result_ite, result_throw, ne_eq, ite_not]
            by_cases level : e.depth = expected
            · simp only [level, if_true]
              exact ⟨_, _, rfl, rfl, rfl, fun _ =>
                ⟨rfl, fun _ => level.symm, rfl, by simp [noted], .inl level.symm⟩⟩
            · simp only [level, if_false]
              exact ⟨_, _, rfl, rfl, rfl, nofun⟩

theorem newLocal_writes (type : ClosedType) (e : Encoder) :
    (∃ fault, result (discard (newLocal type)) e = (.error fault, e)) ∨
      result (discard (newLocal type)) e = (.ok (), { e with locals := e.locals.push type }) := by
  have split : discard (newLocal type) = newLocal type >>= fun _ => pure () :=
    rfl
  rw [split]
  unfold newLocal
  simp only [result_bind, result_get, result_ite, result_throw, result_pure, result_set]
  by_cases full : e.locals.size ≥ UInt16.size
  · exact .inl ⟨.tooManyLocals e.locals.size, by simp only [full, if_true]⟩
  · exact .inr (by simp only [full, if_false])

theorem withOpcode_result {mnemonic : String} (step : Opcode → Encode Unit) (e : Encoder) :
    (∃ fault, result (withOpcode mnemonic step) e = (.error fault, e)) ∨
      ∃ op, Opcode.ofMnemonic? mnemonic = some op ∧
        result (withOpcode mnemonic step) e = result (step op) e := by
  unfold withOpcode Opcode.ofMnemonic
  cases Opcode.ofMnemonic? mnemonic with
  | none => exact .inl ⟨_, rfl⟩
  | some op => exact .inr ⟨op, rfl, rfl⟩

end Encode

namespace Call

/-- What a plain instruction that is accepted does to the depth. -/
structure Moved (e e' : Encoder) (effect : Effect) : Prop where
  unreachable : e'.unreachable = e.unreachable
  depth : e.unreachable = false → e'.depth = e.depth + effect.net
  inRange : InRange e'.depth
  branchDepths : e'.branchDepths = e.branchDepths

/-- What a return that is accepted does to the depth. -/
structure Ended (e e' : Encoder) (effect : Effect) : Prop where
  unreachable : e'.unreachable = true
  depth : e.unreachable = false → e'.depth = e.depth + effect.net
  inRange : InRange e'.depth

/-- All that a request can do to an encoder, with the answer to the request. -/
inductive Writes (e : Encoder) : Call → Except Fault Unit → Encoder → Prop
  | refused {c : Call} (fault : Fault) : Writes e c (.error fault) e
  | plain {c : Call} {op : Opcode} {operand : Operand} {effect : Effect}
    {answer : Except Fault Unit} {e' : Encoder} (hasEffect : c.effect? = some effect)
    (flow : op.info.flow = .next) (items : e'.items = e.items.push (.plain op operand))
    (labels : e'.labels = e.labels) (moves : answer = .ok () → Moved e e' effect) :
    Writes e c answer e'
  | branch {mnemonic : String} {label : Label} {condition : Condition}
    {answer : Except Fault Unit} {e' : Encoder}
    (hasEffect : (Call.branch mnemonic label).effect? = some ⟨condition.pops, 0⟩)
    (known : label.id < e.labels.size)
    (items : e'.items = e.items.push (.branch condition false label))
    (labels : e'.labels = e.labels) (made : answer = .ok () → Branched e e' condition label) :
    Writes e (.branch mnemonic label) answer e'
  | ret {hasValue : Bool} {answer : Except Fault Unit} {e' : Encoder}
    (items : e'.items = e.items.push (.plain .ret .none)) (labels : e'.labels = e.labels)
    (branchDepths : e'.branchDepths = e.branchDepths)
    (ends : answer = .ok () → Ended e e' ⟨if hasValue then 1 else 0, 0⟩) :
    Writes e (.ret hasValue) answer e'
  | newLabel : Writes e .newLabel (.ok ()) { e with labels := e.labels.push none }
  | placeLabel {label : Label} {answer : Except Fault Unit} {e' : Encoder}
    (fresh : e.labels[label.id]? = some none) (items : e'.items = e.items)
    (labels : e'.labels = e.labels.setIfInBounds label.id (some e.items.size))
    (joins : answer = .ok () → Joined e e' label) : Writes e (.placeLabel label) answer e'
  | newLocal (type : ClosedType) :
    Writes e (.newLocal type) (.ok ()) { e with locals := e.locals.push type }

theorem writes_of_result {c : Call} {e e' : Encoder} {answer : Except Fault Unit}
    (performs : result c.perform e = (answer, e')) (writes : Writes e c answer e') :
    Writes e c (result c.perform e).1 (c.next e) := by
  unfold next
  rw [performs]
  exact writes

theorem writes_of_refused {c : Call} {e : Encoder} {fault : Fault}
    (refused : result c.perform e = (.error fault, e)) :
    Writes e c (result c.perform e).1 (c.next e) :=
  writes_of_result refused (.refused fault)

theorem writes_of_emit {c : Call} {e : Encoder} {op : Opcode} {operand : Operand}
    (performs : result c.perform e = result (Encode.emit op operand) e)
    (hasEffect : c.effect? = some op.effect) : Writes e c (result c.perform e).1 (c.next e) := by
  obtain ⟨fault, refused⟩ | ⟨flow, answer, depth, maxDepth, writes, moves, inRange⟩ :=
    emit_writes op operand e
  · exact writes_of_refused (performs.trans refused)
  · exact writes_of_result (performs.trans writes)
      (.plain hasEffect flow rfl rfl fun accepted => ⟨rfl, moves, inRange accepted, rfl⟩)

/-- The rule of requests. -/
theorem writes (c : Call) (e : Encoder) : Writes e c (result c.perform e).1 (c.next e) := by
  cases c with
  | emit mnemonic operand =>
    obtain ⟨fault, refused⟩ | ⟨op, named, performs⟩ :=
      withOpcode_result (fun op => Encode.emit op operand) e
    · exact writes_of_refused refused
    · exact writes_of_emit performs (by simp [effect?, named])
  | call mnemonic member pops pushes =>
    obtain ⟨fault, refused⟩ | ⟨op, -, performs⟩ :=
      withOpcode_result (fun op => Encode.call op member pops.toNat pushes.toNat) e
    · exact writes_of_refused refused
    · obtain ⟨fault, refused⟩ | ⟨flow, answer, depth, maxDepth, writes, moves⟩ :=
        call_writes op member pops.toNat pushes.toNat e
      · exact writes_of_refused (performs.trans refused)
      · exact writes_of_result (performs.trans writes)
          (.plain rfl flow rfl rfl fun accepted =>
            ⟨rfl, (moves accepted).1, (moves accepted).2, rfl⟩)
  | branch mnemonic label =>
    obtain ⟨fault, refused⟩ | ⟨op, named, performs⟩ :=
      withOpcode_result (fun op => Encode.branch op label) e
    · exact writes_of_refused refused
    · obtain ⟨fault, refused⟩ |
          ⟨condition, effect, known, answer, e', writes, items, labels, made⟩ :=
        branch_writes op label e
      · exact writes_of_refused (performs.trans refused)
      · exact writes_of_result (performs.trans writes)
          (.branch (by simp [effect?, named, effect]) known items labels made)
  | ret hasValue =>
    obtain ⟨answer, depth, maxDepth, unreachable, writes, ends⟩ := ret_writes hasValue e
    exact writes_of_result writes (.ret rfl rfl rfl fun accepted =>
      ⟨(ends accepted).1, (ends accepted).2.1, (ends accepted).2.2⟩)
  | newLabel => exact .newLabel
  | placeLabel label =>
    obtain ⟨fault, refused⟩ | ⟨fresh, answer, e', writes, items, labels, joins⟩ :=
      placeLabel_writes label e
    · exact writes_of_refused refused
    · exact writes_of_result writes (.placeLabel fresh items labels joins)
  | newLocal type =>
    obtain ⟨fault, refused⟩ | writes := newLocal_writes type e
    · exact writes_of_refused refused
    · exact writes_of_result writes (.newLocal type)
  | pushInt64 value => exact @writes_of_emit _ e .ldcI8 (.int64 value) rfl rfl
  | pushInt32 value | loadLocal index | storeLocal index | loadLocalAddress index
  | loadArgument index | storeArgument index | loadArgumentAddress index =>
    exact writes_of_emit rfl rfl

end Call

end DebugExpr.Code
