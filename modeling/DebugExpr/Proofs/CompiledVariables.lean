import DebugExpr.Proofs.AssignedLocals
import DebugExpr.Proofs.CompiledMethods
import DebugExpr.Proofs.Temporaries

/-! The variables of compiled methods. The variables that a method names are those of the frame, and
it stores to the locals of the frame where the text assigns to them. What else it needs it keeps in
temporaries behind those locals. -/
namespace DebugExpr
open Metadata Source DebugExpr.Bound DebugExpr.Code

namespace Bound.Frame

/-- The number of arguments, of which `this` is one. -/
def argumentCount (f : Frame) : Nat :=
  f.parameters.length + if f.isStatic then 0 else 1

/-- The variable is one of the suspended method. -/
def Has (f : Frame) : Variable → Prop
  | .local index => index < f.locals.length
  | .argument index => index < f.argumentCount

theorem Has.isNamed {f : Frame} {x : Variable} (has : f.Has x) :
    isNamed f.locals.length x = true := by
  cases x with
  | «local» => exact decide_eq_true has
  | argument => rfl

end Bound.Frame

namespace Code.MethodBody

/-- What the instructions of a method do with variables, in the order of its code. -/
def accesses (m : MethodBody) : List (Access × Variable) :=
  m.instructions.filterMap Instruction.access?

/-- The locals to which a method stores, in the order of its code. -/
def storedLocals (m : MethodBody) : List Nat :=
  m.accesses.filterMap storedLocal?

/-- Stores to the first locals are the accesses to the variables of the frame that store. -/
theorem storedLocals_filter (m : MethodBody) (locals : Nat) :
    m.storedLocals.filter (· < locals) =
      (m.accesses.filter (isNamed locals ·.2)).filterMap storedLocal? := by
  rw [storedLocals, List.filter_filterMap, List.filterMap_filter]
  congr 1
  funext ⟨access, x⟩
  cases access <;> cases x <;> simp [storedLocal?, isNamed, Option.filter]

/-- The variable is in range when the method runs in place of that of the frame. -/
def HasPlace (m : MethodBody) (f : Frame) : Variable → Prop
  | .local index => index < m.locals.length
  | .argument index => index < f.argumentCount

/-- The first locals of the method are those of the frame, and it stores to them as the text assigns
to the names. Its other locals are temporaries: on every way to an instruction that reads one or
takes its address there is a store to it. -/
structure ServesFrame (m : MethodBody) (f : Frame) (assigned : List String) : Prop where
  locals : f.locals.map (·.type) <+: m.locals
  inRange : ∀ i ∈ m.instructions, i.opcode.access?.isSome →
    ∃ access x, i.access? = some (access, x) ∧ m.HasPlace f x
  stores : (m.storedLocals.filter (· < f.locals.length)).Sublist (assigned.filterMap f.slot?)
  temporaries : ∀ i ∈ m.instructions, ∀ access index, i.access? = some (access, .local index) →
    f.locals.length ≤ index → access ≠ .store → ∀ passed, Path m.instructions passed i.offset →
      ∃ store ∈ passed, store.access? = some (.store, .local index)

end Code.MethodBody

/-- The variables of a term that binding has made are those of the frame. -/
theorem Bound.Term.WellFormed.variables {s : Scope} {t : Term} {names : List String}
    (formed : t.WellFormed s) (within : WithinFrame s.frame names (t.yields Term.frameUse?)) :
    t.All fun u => ∀ x ∈ u.denotes?, s.frame.Has x := by
  intro u inside x denotes
  have node := formed u inside
  cases u with
  | localVar index type =>
    obtain rfl := Option.some.inj denotes
    obtain ⟨slot, found, -⟩ := node
    exact (List.getElem?_eq_some_iff.mp found).1
  | parameter index byRef type =>
    obtain rfl := Option.some.inj denotes
    obtain ⟨i, slot, rfl, found, -⟩ := node
    exact Nat.add_lt_add_right (List.getElem?_eq_some_iff.mp found).1 _
  | this type =>
    obtain rfl := Option.some.inj denotes
    have used : FrameUse.this ∈ t.yields Term.frameUse? :=
      List.mem_filterMap.mpr ⟨_, Term.mem_postorder.mpr inside, rfl⟩
    simp [Frame.Has, Frame.argumentCount, within.this used]
  | _ => cases denotes

namespace Task
variable {s : Scope} {task : Task} {c : Compiled}

/-- The term that is compiled. -/
def term : Task → Term
  | value t | effect t => t

/-- The task assigns to the locals to which an expression assigns by name. -/
def Assigns (s : Scope) (task : Task) (expr : Expr) : Prop :=
  WithinFrame s.frame expr.assignedNames (task.term.yields Term.frameUse?)

theorem ofExpression_assigns {source : String} {options : Options}
    (h : ofExpression s source options = .ok task) :
    ∃ expr, parse source s.config.maxExpressionDepth = .ok expr ∧ task.Assigns s expr := by
  obtain ⟨expr, term, parses, binds, made⟩ := ofExpression_eq_ok h
  have assigns := (Scope.bind_assigns binds).within
  refine ⟨expr, parses, ?_⟩
  obtain rfl | ⟨rfl, -⟩ | ⟨object, converted, converts, rfl⟩ := made
  · exact assigns
  · exact assigns
  · rw [Assigns, Task.term, (Scope.convert_eq_ok converts).yields_eq Term.overlooks_frameUse?]
    exact assigns

theorem ofAssignment_assigns {target source : String}
    (h : ofAssignment s target source = .ok task) :
    ∃ left right, parse target s.config.maxExpressionDepth = .ok left ∧
      parse source s.config.maxExpressionDepth = .ok right ∧
      task.Assigns s (.assign left.position left none right) := by
  obtain ⟨left, right, term, parsesLeft, parsesRight, binds, rfl⟩ := ofAssignment_eq_ok h
  exact ⟨left, right, parsesLeft, parsesRight, (Scope.bind_assigns binds).within⟩

theorem code_uses {P : Variable → Prop} (holds : task.term.All fun u => ∀ x ∈ u.denotes?, P x) :
    Uses P task.term.assignedLocals task.code := by
  cases task with
  | value => exact (lower_within holds).value
  | effect => exact discard_uses holds

theorem wellFormed_term {s' : Scope} (formed : task.WellFormed s') : task.term.WellFormed s' := by
  cases task with
  | value => exact formed.1
  | effect => exact formed

theorem compile_serves {allows : Bool} {expr : Expr}
    (formed : task.WellFormed { s with allowsSideEffects := allows })
    (assigns : task.Assigns s expr) (compiled : task.compile s = .ok c) :
    c.method.ServesFrame s.frame expr.assignedNames := by
  obtain ⟨⟨lawful, -, -⟩, offset, isOf, -⟩ := assemble_sound (compile_eq_ok compiled)
  have uses : Uses s.frame.Has task.term.assignedLocals task.code :=
    code_uses ((wellFormed_term formed).variables assigns)
  have names : task.code.Names (s.frame.locals.map (·.type)).length :=
    fun x member => by simpa using (uses.within x member).isNamed
  have accesses := isOf.accesses_eq lawful names
  rw [List.length_map] at accesses
  refine ⟨⟨_, isOf.locals.symm⟩, ?inRange, ?stores, ?temporaries⟩
  case inRange =>
    intro i member opcode
    obtain ⟨⟨access, x⟩, isAccess⟩ :=
      Option.isSome_iff_exists.mp (isOf.access?_isSome lawful member opcode)
    refine ⟨access, x, isAccess, ?_⟩
    cases named : isNamed s.frame.locals.length x with
    | true =>
      have has : s.frame.Has x := by
        refine uses.within (access, x) (accesses ▸ List.mem_filter.mpr ⟨?_, named⟩)
        exact List.mem_filterMap.mpr ⟨i, member, isAccess⟩
      cases x with
      | «local» index =>
        have inFrame : index < s.frame.locals.length := has
        simp only [MethodBody.HasPlace, isOf.locals, List.length_append, List.length_map]
        omega
      | argument => exact has
    | false =>
      cases x with
      | «local» index =>
        have behind : s.frame.locals.length ≤ index := by simpa [isNamed] using named
        exact (isOf.temporary_passed lawful names member isAccess (by simpa using behind)).1
      | argument => cases named
  case stores =>
    have assigned : task.term.assignedLocals.Sublist
        (expr.assignedNames.filterMap s.frame.slot?) := by
      rw [Term.assignedLocals_yields]
      exact assigns.inOrder
    rw [MethodBody.storedLocals_filter, MethodBody.accesses, accesses]
    exact uses.stores.trans assigned
  case temporaries =>
    intro i member access index isAccess behind reads
    exact (isOf.temporary_passed lawful names member isAccess (by simpa using behind)).2 reads

end Task

/-- Whatever the compiler answers with finds its variables in the frame or keeps them itself. -/
theorem compiled_serves (s : Scope) (c : Compiled) :
    (∀ source options, compile s source options = .ok c →
      ∃ expr, parse source s.config.maxExpressionDepth = .ok expr ∧
        c.method.ServesFrame s.frame expr.assignedNames) ∧
    ∀ target source, compileAssignment s target source = .ok c →
      ∃ left right, parse target s.config.maxExpressionDepth = .ok left ∧
        parse source s.config.maxExpressionDepth = .ok right ∧
        c.method.ServesFrame s.frame (Expr.assign left.position left none right).assignedNames := by
  constructor
  · intro source options compiled
    obtain ⟨task, bound, compiled⟩ := bind_eq_ok.mp compiled
    obtain ⟨expr, parses, assigns⟩ := Task.ofExpression_assigns bound
    exact ⟨expr, parses,
      Task.compile_serves (Task.ofExpression_wellFormed bound) assigns compiled⟩
  · intro target source compiled
    obtain ⟨task, bound, compiled⟩ := bind_eq_ok.mp compiled
    obtain ⟨left, right, parsesLeft, parsesRight, assigns⟩ := Task.ofAssignment_assigns bound
    exact ⟨left, right, parsesLeft, parsesRight,
      Task.compile_serves (Task.ofAssignment_wellFormed bound) assigns compiled⟩

/-- A temporary of the code that runs only if `x` is null: `x ?? (a[0] = x = a)`. -/
theorem choiceOfElement_serves : ∃ (c : Compiled) (expr : Expr),
    let s := Sample.scope []
      [⟨"x", Sample.type .object⟩, ⟨"a", .array (Sample.type .object) 1⟩]
    compile s "x ?? (a[0] = x = a)" {} = .ok c ∧
      c.method.accesses = [(.load, .local 0), (.load, .local 1), (.load, .local 1),
        (.store, .local 0), (.store, .local 2), (.load, .local 2)] ∧
      expr.assignedNames = ["x"] ∧ c.method.ServesFrame s.frame expr.assignedNames := by
  obtain ⟨c, compiled, accesses⟩ := exists_ok_of_any (x := compile (Sample.scope []
      [⟨"x", Sample.type .object⟩, ⟨"a", .array (Sample.type .object) 1⟩])
      "x ?? (a[0] = x = a)" {})
    (p := fun c => c.method.accesses = [(.load, .local 0), (.load, .local 1), (.load, .local 1),
      (.store, .local 0), (.store, .local 2), (.load, .local 2)])
    (by decide +kernel)
  obtain ⟨expr, parses, serves⟩ := (compiled_serves _ c).1 _ _ compiled
  obtain ⟨expr', parses', names⟩ := exists_ok_of_any
    (x := parse "x ?? (a[0] = x = a)" (Sample.scope [] []).config.maxExpressionDepth)
    (p := fun expr => expr.assignedNames = ["x"]) (by decide +kernel)
  obtain rfl : expr = expr' := Except.ok.inj (parses.symm.trans parses')
  exact ⟨c, expr, compiled, accesses, names, serves⟩

end DebugExpr
