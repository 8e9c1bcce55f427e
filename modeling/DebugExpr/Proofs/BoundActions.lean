import DebugExpr.Proofs.BindingInduction
import DebugExpr.Proofs.ObservedNodes
import DebugExpr.Proofs.SampleScope

/-! Assignments and calls through binding. What an expression assigns and calls, the bound term
assigns and calls in the same order and as often, but for what stands before the dot of a static
member: binding drops that with everything in it. -/
namespace DebugExpr.Source

/-- What evaluation does to the process that is looked at. -/
inductive Action where
  /-- Writes a variable, by an operator if the assignment is compound. -/
  | assignment (op : Option BinaryOp)
  /-- Calls a method of the name with so many arguments, each by reference or by value. -/
  | invocation (name : Option String) (byRef : List Bool)
  deriving DecidableEq

/-- The argument is passed by reference. -/
def Passing.isByRef (passing : Passing) : Bool :=
  passing != .value

namespace Expr

/-- The name of the methods that an invocation of the expression calls. -/
def calledName? : Expr → Option String
  | name _ called _ | member _ _ called _ => some called
  | _ => none

mutual

/-- The assignments and invocations of an expression, in the order of evaluation. -/
def actions : Expr → List Action
  | name .. | global .. | literal .. | this _ => []
  | member _ target _ _ => actions target
  | invoke _ target args =>
    actions target ++ actionsOfArgs args ++
      [.invocation (calledName? target) (args.map fun arg => arg.1.isByRef)]
  | index _ target indices => actions target ++ actionsOfAll indices
  | cast _ _ operand | negate _ operand => actions operand
  | binary _ _ left right | coalesce _ left right => actions left ++ actions right
  | assign _ target op value => actions target ++ actions value ++ [.assignment op]

def actionsOfArgs : List (Passing × Expr) → List Action
  | [] => []
  | (_, e) :: rest => actions e ++ actionsOfArgs rest

def actionsOfAll : List Expr → List Action
  | [] => []
  | e :: rest => actions e ++ actionsOfAll rest

end

end Expr

end DebugExpr.Source

namespace DebugExpr.Bound
open Metadata Source

namespace Term

/-- What a node does itself. -/
def action? : Term → Option Action
  | call _ m args => some (.invocation (some m.name) (args.map (·.1)))
  | assign .. => some (.assignment none)
  | compound op .. => some (.assignment (some op))
  | _ => none

/-- The assignments and calls of a term, in the order of evaluation. -/
def actions (t : Term) : List Action :=
  t.postorder.filterMap action?

theorem overlooks_action? : Overlooks action? := by
  intro t plain
  cases t <;> first | rfl | cases plain

/-- The node is a static member, which has no receiver. -/
def isStaticMember : Term → Bool
  | field none _ | property none _ | call none .. => true
  | _ => false

end Term

namespace Scope

mutual

/-- What stands before the dots of static members. Within such an expression no further ones are
listed. -/
def beforeStatic (s : Scope) : Expr → List Expr
  | .name .. | .global .. | .literal .. | .this _ => []
  | .member p target name typeArgs =>
    if (s.bind (.member p target name typeArgs)).toOption.any Term.isStaticMember then [target]
    else beforeStatic s target
  | .invoke p (.member q target name typeArgs) args =>
    (if (s.bind (.invoke p (.member q target name typeArgs) args)).toOption.any Term.isStaticMember
      then [target] else beforeStatic s target) ++ beforeStaticOfArgs s args
  | .invoke _ target args => beforeStatic s target ++ beforeStaticOfArgs s args
  | .index _ target indices => beforeStatic s target ++ beforeStaticOfAll s indices
  | .cast _ _ operand | .negate _ operand => beforeStatic s operand
  | .binary _ _ left right | .coalesce _ left right => beforeStatic s left ++ beforeStatic s right
  | .assign _ target _ value => beforeStatic s target ++ beforeStatic s value

def beforeStaticOfArgs (s : Scope) : List (Passing × Expr) → List Expr
  | [] => []
  | (_, e) :: rest => beforeStatic s e ++ beforeStaticOfArgs s rest

def beforeStaticOfAll (s : Scope) : List Expr → List Expr
  | [] => []
  | e :: rest => beforeStatic s e ++ beforeStaticOfAll s rest

end

end Scope

/-- The actions that are made are those that are written but for the dropped ones, in the order in
which they are written. -/
structure Accounts (made written dropped : List Action) : Prop where
  inOrder : made.Sublist written
  all : written.Perm (made ++ dropped)

namespace Accounts
variable {made made' written written' dropped dropped' : List Action}

theorem kept (actions : List Action) : Accounts actions actions [] :=
  ⟨.refl _, by simp⟩

theorem lost (actions : List Action) : Accounts [] actions actions :=
  ⟨List.nil_sublist _, .refl _⟩

theorem append (first : Accounts made written dropped) (second : Accounts made' written' dropped') :
    Accounts (made ++ made') (written ++ written') (dropped ++ dropped') := by
  refine ⟨first.inOrder.append second.inOrder, ?_⟩
  calc (written ++ written').Perm ((made ++ dropped) ++ (made' ++ dropped')) :=
        first.all.append second.all
    _ = made ++ ((dropped ++ made') ++ dropped') := by simp only [List.append_assoc]
    _ |>.Perm (made ++ ((made' ++ dropped) ++ dropped')) :=
        (List.perm_append_comm.append_right dropped').append_left made
    _ = (made ++ made') ++ (dropped ++ dropped') := by simp only [List.append_assoc]

end Accounts

namespace Scope
variable {s : Scope} {t : Term} {type : ClosedType}

theorem this_actions : s.this.actions = [] :=
  rfl

theorem assign_actions {op : Option BinaryOp} {target value : Term}
    (h : s.assign target op value = .ok t) :
    t.actions = target.actions ++ value.actions ++ [.assignment op] := by
  have made : t.action? = some (.assignment op) := by
    obtain ⟨_, _, -, -, ⟨rfl, rfl⟩ | ⟨_, rfl, -, rfl⟩⟩ := assign_eq_ok h <;> rfl
  have yields := assign_yields Term.overlooks_action? h
  rwa [made] at yields

theorem field_actions {receiver : Option Term} {m : MemberRef}
    (made : t = .field receiver m ∨ t = .property receiver m) :
    t.isStaticMember = receiver.isNone ∧ t.actions = receiver.toList.flatMap Term.actions := by
  refine ⟨?_, access_yields Term.overlooks_action? made⟩
  rcases made with rfl | rfl <;> cases receiver <;> rfl

theorem named_actions {name : String} (named : s.Named name t) : t.actions = [] := by
  rcases named_yields Term.overlooks_action? named with none | ⟨this, -⟩
  · exact none
  · exact this

/-- A call keeps its receiver unless the method is static. -/
theorem callOf_actions {name : String} {site : CallSite} {methods : List Method}
    (named : ∀ m ∈ methods, m.name = name) (h : s.callOf name site methods = .ok t) :
    ∃ receiver, (receiver = none ∨ receiver = site.receiver) ∧
      t.isStaticMember = receiver.isNone ∧
      t.actions = receiver.toList.flatMap Term.actions ++ site.args.flatMap (·.2.actions) ++
        [.invocation (some name) (site.args.map (·.1))] := by
  obtain ⟨receiver, m, args, rfl, keeps, ⟨found, member, same⟩, passings, yields⟩ :=
    callOf_yields Term.overlooks_action? h
  refine ⟨receiver, keeps, by cases receiver <;> rfl, ?_⟩
  rw [← named found member, ← same, ← passings]
  exact yields

/-- The methods that are found for a name have it. -/
theorem findMember_named {name : String} {invoked : Bool} {declaring : ClosedType}
    {methods : List Method}
    (h : s.findMember type name invoked = .ok (some (.methods declaring methods))) :
    ∀ m ∈ methods, m.name = name := by
  obtain ⟨owner, -, declares⟩ :=
    findMember_eq_some (P := fun _ => True) trivial (fun _ _ => trivial) h
  obtain ⟨home, d, args, rfl, isGroup | ⟨_, _, -, ⟨-, isField⟩ | ⟨-, isProperty⟩⟩⟩ :=
    declaredMember_eq_some declares
  · cases isGroup
    intro m member
    simpa using (List.mem_filter.mp member).2
  · cases isField
  · cases isProperty

theorem receiver_accounts {target : Expr} {bound : Except Error Term} {before : Receiver}
    {name : String} {given kept : Option Term} {dropped : List Action}
    (accounts : ∀ t, bound = .ok t → Accounts t.actions target.actions dropped)
    (h : s.receiver target bound = .ok before)
    (named : receiverType name before = .ok (given, type)) (keeps : kept = none ∨ kept = given) :
    Accounts (kept.toList.flatMap Term.actions) target.actions
      (if kept.isNone then target.actions else dropped) := by
  rcases kept_bound h named keeps with rfl | ⟨u, rfl, bound⟩
  · exact .lost _
  · simpa using accounts u bound

section
variable {p q : Nat} {before : Expr} {name : String} {typeArgs : List TypeExpr}
  {args : List (Passing × Expr)}

theorem beforeStatic_member (bound : s.bind (.member p before name typeArgs) = .ok t) :
    (s.beforeStatic (.member p before name typeArgs)).flatMap Expr.actions =
      if t.isStaticMember then before.actions
      else (s.beforeStatic before).flatMap Expr.actions := by
  simp only [beforeStatic, bound, Except.toOption, Option.any_some]
  split <;> simp

theorem beforeStatic_invoke
    (bound : s.bind (.invoke p (.member q before name typeArgs) args) = .ok t) :
    (s.beforeStatic (.invoke p (.member q before name typeArgs) args)).flatMap Expr.actions =
      (if t.isStaticMember then before.actions
        else (s.beforeStatic before).flatMap Expr.actions) ++
        (s.beforeStaticOfArgs args).flatMap Expr.actions := by
  simp only [beforeStatic, bound, Except.toOption, Option.any_some, List.flatMap_append]
  split <;> simp

end

theorem bind_accounts {expr : Expr} (bound : s.bind expr = .ok t) :
    Accounts t.actions expr.actions ((s.beforeStatic expr).flatMap Expr.actions) := by
  have overlooks := Term.overlooks_action?
  refine bind_induction
    (P := fun expr t =>
      Accounts t.actions expr.actions ((s.beforeStatic expr).flatMap Expr.actions))
    (Q := fun _ indices terms => Accounts (terms.flatMap Term.actions)
      (Expr.actionsOfAll indices) ((s.beforeStaticOfAll indices).flatMap Expr.actions))
    (R := fun args terms => terms.map (·.1) = args.map (·.1.isByRef) ∧
      Accounts (terms.flatMap (·.2.actions)) (Expr.actionsOfArgs args)
        ((s.beforeStaticOfArgs args).flatMap Expr.actions))
    ?name ?literal ?this ?member ?ownCall ?memberCall ?index ?cast ?negateLiteral ?negate ?binary
    ?coalesce ?assign ?noIndices ?indices ?noArguments ?arguments bound
  case name =>
    intro _ name typeArgs t named
    rw [named_actions named]
    exact .kept []
  case literal =>
    intro _ value t h
    rw [show t.actions = [] from literalTerm_yields overlooks h]
    exact .kept []
  case this => exact fun _ => .kept []
  case member =>
    intro _ target name typeArgs before t bound ih resolves h
    obtain ⟨given, type, m, kept, named, keeps, made⟩ := memberTerm_eq_ok h
    obtain ⟨static, actions⟩ := field_actions (made.imp And.right And.right)
    have accounts := receiver_accounts ih resolves named (keepReceiver_eq_or keeps)
    rw [actions, beforeStatic_member bound, static]
    simpa only [Expr.actions] using accounts
  case ownCall =>
    intro _ _ name written args methods t site named _ ih h
    obtain ⟨finds, isThis⟩ := ownMethods_eq_ok named
    obtain ⟨kept, keeps, -, actions⟩ := callOf_actions (findMember_named finds) h
    have silent : kept.toList.flatMap Term.actions = [] := by
      rcases keeps with rfl | rfl
      · rfl
      · simp only [List.flatMap_eq_nil_iff, Option.mem_toList]
        intro r member
        rw [(isThis r member).1, this_actions]
    obtain ⟨passings, accounts⟩ := ih
    rw [actions, silent, passings]
    simpa only [List.nil_append, List.append_nil, Expr.actions, Expr.calledName?, beforeStatic]
      using accounts.append (.kept _)
  case memberCall =>
    intro _ _ target name written args before methods t site bound ih resolves named _ ihArgs h
    obtain ⟨type, named, finds⟩ := memberMethods_eq_ok named
    obtain ⟨kept, keeps, static, actions⟩ := callOf_actions (findMember_named finds) h
    have accounts := receiver_accounts ih resolves named keeps
    obtain ⟨passings, accountsArgs⟩ := ihArgs
    rw [actions, beforeStatic_invoke bound, static, passings]
    simpa only [List.append_nil, Expr.actions, Expr.calledName?]
      using (accounts.append accountsArgs).append (.kept _)
  case index =>
    intro _ target indices array terms type int ih _ _ ihIndices
    have actions : (Term.element array terms type).actions =
        array.actions ++ terms.flatMap Term.actions :=
      Term.yields_of_plain overlooks rfl
    rw [actions]
    simpa only [Expr.actions, beforeStatic, List.flatMap_append] using ih.append ihIndices
  case cast =>
    intro _ written operand type u t _ ih h
    rw [show t.actions = u.actions from (convert_eq_ok h).yields_eq overlooks]
    simpa only [Expr.actions, beforeStatic] using ih
  case negateLiteral =>
    intro _ _ value t h
    rw [show t.actions = [] from negatedLiteral_yields overlooks h]
    exact .kept []
  case negate =>
    intro _ operand u t ih h
    rw [show t.actions = u.actions from negate_yields overlooks h]
    simpa only [Expr.actions, beforeStatic] using ih
  case binary =>
    intro _ op left right l r l' r' t ihLeft ihRight promotesLeft promotesRight h
    rw [show t.actions = l'.actions ++ r'.actions from arithmetic_yields overlooks h,
      show l'.actions = l.actions from promote_yields overlooks promotesLeft,
      show r'.actions = r.actions from promote_yields overlooks promotesRight]
    simpa only [Expr.actions, beforeStatic, List.flatMap_append] using ihLeft.append ihRight
  case coalesce =>
    intro _ left right l r t ihLeft ihRight h
    rw [show t.actions = l.actions ++ r.actions from coalesceTerm_yields overlooks h]
    simpa only [Expr.actions, beforeStatic, List.flatMap_append] using ihLeft.append ihRight
  case assign =>
    intro _ target value op l r t _ ihTarget _ ihValue assigns
    have accounts := (ihTarget.append ihValue).append (.kept [.assignment op])
    rw [assign_actions assigns]
    simpa only [Expr.actions, beforeStatic, List.flatMap_append, List.append_nil] using accounts
  case noIndices => exact .kept []
  case indices =>
    intro type expr rest given u terms ih converts ihRest
    simpa only [Expr.actionsOfAll, beforeStaticOfAll, List.flatMap_append, List.flatMap_cons,
      show u.actions = given.actions from (convert_eq_ok converts).yields_eq overlooks]
      using ih.append ihRest
  case noArguments => exact ⟨rfl, .kept []⟩
  case arguments =>
    intro passing expr rest u terms ih _ ihRest
    refine ⟨by simp [ihRest.1, Passing.isByRef], ?_⟩
    simpa only [Expr.actionsOfArgs, beforeStaticOfArgs, List.flatMap_append, List.flatMap_cons]
      using ih.append ihRest.2

/-- A bound term does what is written in the order in which it is written, and all of it but for
what stands before the dots of static members. Where nothing is done there, it does just what is
written. -/
theorem bind_actions {expr : Expr} (bound : s.bind expr = .ok t) :
    t.actions.Sublist expr.actions ∧
      expr.actions.Perm (t.actions ++ (s.beforeStatic expr).flatMap Expr.actions) ∧
      ((∀ e ∈ s.beforeStatic expr, e.actions = []) → t.actions = expr.actions) := by
  obtain ⟨inOrder, all⟩ := bind_accounts bound
  refine ⟨inOrder, all, fun idle => inOrder.eq_of_length ?_⟩
  rw [all.length_eq, List.flatMap_eq_nil_iff.mpr idle, List.append_nil]

end Scope

section Instance
open Sample

/-- A class with a counter of its own in each instance, one that all share, and a method that adds
to the former. -/
def tally : TypeDefinition :=
  TypeDeclaration.define
    { fullName := "Tally"
      kind := .classType
      fields := [⟨"Count", .ofPrimitive .int32, false⟩, ⟨"Total", .ofPrimitive .int32, true⟩]
      methods := [⟨"Add", false, [], [⟨"n", .ofPrimitive .int32, false⟩], none⟩] }
    (.typeDefinition 1)

/-- Two instances are in the locals `x` and `y`. -/
def tallyScope : Scope :=
  { scope [] [⟨"x", .named ⟨1⟩ tally []⟩, ⟨"y", .named ⟨1⟩ tally []⟩] with
    snapshot :=
      (Snapshot.empty.add core).add (.ofDefinitions ⟨"App", ⟨1, 0, 0, 0⟩, none, none⟩ [tally]) }

/-- The assignment `x = y`. -/
def xToY : Expr :=
  .assign 0 (.name 0 "x" []) none (.name 0 "y" [])

/-- What is done before the dot of an instance method is done once, and before its argument:
`(x = y).Add(x.Count += 1)`. -/
theorem addBehindAssignment_actions : ∃ t, tallyScope.bind
    (.invoke 0 (.member 0 xToY "Add" [])
      [(.value, .assign 0 (.member 0 (.name 0 "x" []) "Count" []) (some .add)
        (.literal 0 (.integer 1)))]) = .ok t ∧
    t.actions = [.assignment none, .assignment (some .add), .invocation (some "Add") [false]] := by
  obtain ⟨t, bound, -⟩ : ∃ t, tallyScope.bind
      (.invoke 0 (.member 0 xToY "Add" [])
        [(.value, .assign 0 (.member 0 (.name 0 "x" []) "Count" []) (some .add)
          (.literal 0 (.integer 1)))]) = .ok t ∧ True :=
    exists_ok_of_any (by decide +kernel)
  exact ⟨t, bound, (Scope.bind_actions bound).2.2 (by decide +kernel)⟩

/-- The assignment is dropped in `(x = y).Total`. -/
theorem totalBehindAssignment_dropped : ∃ t,
    tallyScope.bind (.member 0 xToY "Total" []) = .ok t ∧ t.actions = [] ∧
      (Expr.member 0 xToY "Total" []).actions = [.assignment none] := by
  obtain ⟨t, bound, actions⟩ : ∃ t, tallyScope.bind (.member 0 xToY "Total" []) = .ok t ∧
      t.actions = [] := exists_ok_of_any (by decide +kernel)
  exact ⟨t, bound, actions, rfl⟩

end Instance

end DebugExpr.Bound
