import DebugExpr.Proofs.BindingInduction
import DebugExpr.Proofs.LoweredVariables
import DebugExpr.Proofs.ObservedNodes

/-! Assignments to locals through binding. A bound term assigns to those locals alone that the
expression assigns to by name, in the same order, and it uses `this` only in an instance method. -/
namespace DebugExpr.Source.Expr

/-- The name that an expression consists of. A cast may stand around it, since one to the type that
a variable has already leaves the variable. -/
def name? : Expr → Option String
  | name _ called _ => some called
  | cast _ _ operand => name? operand
  | _ => none

mutual

/-- The names to which an expression assigns, in the order of evaluation. -/
def assignedNames : Expr → List String
  | name .. | global .. | literal .. | this _ => []
  | member _ target _ _ => assignedNames target
  | invoke _ target args => assignedNames target ++ assignedNamesOfArgs args
  | index _ target indices => assignedNames target ++ assignedNamesOfAll indices
  | cast _ _ operand | negate _ operand => assignedNames operand
  | binary _ _ left right | coalesce _ left right => assignedNames left ++ assignedNames right
  | assign _ target _ value =>
    assignedNames target ++ assignedNames value ++ (name? target).toList

def assignedNamesOfArgs : List (Passing × Expr) → List String
  | [] => []
  | (_, e) :: rest => assignedNames e ++ assignedNamesOfArgs rest

def assignedNamesOfAll : List Expr → List String
  | [] => []
  | e :: rest => assignedNames e ++ assignedNamesOfAll rest

end

end DebugExpr.Source.Expr

namespace DebugExpr.Bound
open Metadata Source

/-- The slot of the local of a name. -/
def Frame.slot? (f : Frame) (name : String) : Option Nat :=
  (f.local? name).map (·.1)

/-- What a node does with the frame beyond reading its variables. -/
inductive FrameUse where
  | assigns (slot : Nat)
  | this
  deriving DecidableEq

namespace FrameUse

def slot? : FrameUse → Option Nat
  | assigns slot => some slot
  | this => none

end FrameUse

namespace Term

def frameUse? : Term → Option FrameUse
  | assign target _ _ | compound _ target _ _ => target.local?.map .assigns
  | this _ => some .this
  | _ => none

theorem overlooks_frameUse? : Overlooks frameUse? := by
  intro t plain
  cases t <;> first | rfl | cases plain

theorem assignedLocals_yields (t : Term) :
    t.assignedLocals = (t.yields frameUse?).filterMap FrameUse.slot? := by
  have pointwise : ∀ u, assigned? u = (frameUse? u).bind FrameUse.slot? := by
    intro u
    cases u with
    | assign target | compound _ target => cases target <;> rfl
    | _ => rfl
  rw [yields, List.filterMap_filterMap, assignedLocals, funext pointwise]

theorem local?_eq_some {t : Term} {slot : Nat} (isLocal : t.local? = some slot) :
    ∃ type, t = .localVar slot type := by
  cases t <;> cases isLocal
  exact ⟨_, rfl⟩

end Term

/-- The assignments are to locals of the names, in their order, and `this` exists where it is
used. -/
structure WithinFrame (f : Frame) (names : List String) (uses : List FrameUse) : Prop where
  inOrder : (uses.filterMap FrameUse.slot?).Sublist (names.filterMap f.slot?)
  this : .this ∈ uses → f.isStatic = false

namespace WithinFrame
variable {f : Frame} {names names' : List String} {uses uses' : List FrameUse}

theorem nil (names : List String) : WithinFrame f names [] :=
  ⟨List.nil_sublist _, nofun⟩

theorem ofThis (instance' : f.isStatic = false) : WithinFrame f names [.this] :=
  ⟨List.nil_sublist _, fun _ => instance'⟩

theorem append (first : WithinFrame f names uses) (second : WithinFrame f names' uses') :
    WithinFrame f (names ++ names') (uses ++ uses') where
  inOrder := by
    simpa only [List.filterMap_append] using first.inOrder.append second.inOrder
  this member := (List.mem_append.mp member).elim first.this second.this

end WithinFrame

namespace Scope
variable {s : Scope}

/-- What the term assigns to, the expression assigns to by name, and a term that is a local is
written as a name. -/
structure Assigns (s : Scope) (e : Expr) (t : Term) : Prop where
  within : WithinFrame s.frame e.assignedNames (t.yields Term.frameUse?)
  named : ∀ slot, t.local? = some slot →
    ∃ name, e.name? = some name ∧ s.frame.slot? name = some slot

theorem this_yields : s.this.yields Term.frameUse? = [.this] :=
  rfl

theorem integerTerm_local? {n : Int} {p : Primitive} {t : Term} (h : s.integerTerm n p = .ok t) :
    t.local? = none := by
  obtain ⟨type, -, h⟩ := bind_eq_ok.mp h
  split at h <;> obtain rfl := pure_eq_ok.mp h <;> rfl

theorem kept_within {expr : Expr} {bound : Except Error Term} {before : Receiver} {name : String}
    {given kept : Option Term} {type : ClosedType} (assigns : ∀ u, bound = .ok u → s.Assigns expr u)
    (h : s.receiver expr bound = .ok before)
    (named : receiverType name before = .ok (given, type)) (keeps : kept = none ∨ kept = given) :
    WithinFrame s.frame expr.assignedNames (kept.toList.flatMap (Term.yields Term.frameUse?)) := by
  rcases kept_bound h named keeps with rfl | ⟨u, rfl, bound⟩
  · exact .nil _
  · simpa using (assigns u bound).within

/-- A bound term assigns to the locals that the expression assigns to by name. -/
theorem bind_assigns {expr : Expr} {t : Term} (bound : s.bind expr = .ok t) : s.Assigns expr t := by
  have overlooks := Term.overlooks_frameUse?
  refine bind_induction (P := s.Assigns)
    (Q := fun _ indices terms => WithinFrame s.frame (Expr.assignedNamesOfAll indices)
      (terms.flatMap (Term.yields Term.frameUse?)))
    (R := fun args terms => WithinFrame s.frame (Expr.assignedNamesOfArgs args)
      (terms.flatMap (·.2.yields Term.frameUse?)))
    ?name ?literal ?this ?member ?ownCall ?memberCall ?index ?cast ?negateLiteral ?negate ?binary
    ?coalesce ?assign ?noIndices ?indices ?noArguments ?arguments bound
  case name =>
    intro _ name typeArgs t named
    constructor
    · rcases named_yields overlooks named with none | ⟨this, instance'⟩
      · rw [none]
        exact .nil _
      · rw [this]
        exact .ofThis instance'
    · intro slot isLocal
      obtain ⟨type, rfl⟩ := Term.local?_eq_some isLocal
      cases named with
      | localVar found => exact ⟨name, rfl, by simp [Frame.slot?, found]⟩
      | member _ own =>
        obtain ⟨_, _, -, ⟨-, made⟩ | ⟨-, made⟩⟩ := ownMember?_eq_some own <;> cases made
  case literal =>
    intro _ value t h
    constructor
    · rw [literalTerm_yields overlooks h]
      exact .nil _
    · rcases literalTerm_eq_ok h with rfl | ⟨_, _, -, rfl⟩ | ⟨_, _, -, rfl⟩ | ⟨n, h⟩
      · nofun
      · nofun
      · nofun
      · simp [integerTerm_local? h]
  case this => exact fun instance' => ⟨.ofThis instance', nofun⟩
  case member =>
    intro _ target name typeArgs before t _ ih resolves h
    obtain ⟨given, type, m, kept, named, keeps, made⟩ := memberTerm_eq_ok h
    have made := made.imp And.right And.right
    constructor
    · rw [access_yields overlooks made]
      simpa only [Expr.assignedNames] using
        kept_within ih resolves named (keepReceiver_eq_or keeps)
    · rcases made with rfl | rfl <;> nofun
  case ownCall =>
    intro _ _ name written args methods t site named _ ih h
    obtain ⟨-, isThis⟩ := ownMethods_eq_ok named
    obtain ⟨kept, m, terms, rfl, keeps, -, -, yields⟩ := callOf_yields overlooks h
    have receiver :
        WithinFrame s.frame [] (kept.toList.flatMap (Term.yields Term.frameUse?)) := by
      cases kept with
      | none => exact .nil _
      | some r =>
        obtain ⟨rfl, instance'⟩ := isThis r (by simpa [eq_comm] using keeps)
        simpa [this_yields] using WithinFrame.ofThis instance'
    refine ⟨?_, nofun⟩
    rw [yields]
    simpa [Expr.assignedNames, Term.frameUse?] using receiver.append ih
  case memberCall =>
    intro _ _ target name written args before methods t site _ ih resolves named _ ihArgs h
    obtain ⟨type, named, -⟩ := memberMethods_eq_ok named
    obtain ⟨kept, m, terms, rfl, keeps, -, -, yields⟩ := callOf_yields overlooks h
    refine ⟨?_, nofun⟩
    rw [yields]
    simpa [Expr.assignedNames, Term.frameUse?] using
      (kept_within ih resolves named keeps).append ihArgs
  case index =>
    intro _ target indices array terms type int ih _ _ ihIndices
    refine ⟨?_, nofun⟩
    rw [Term.yields_of_plain overlooks rfl]
    exact ih.within.append ihIndices
  case cast =>
    intro _ written operand type u t _ ih h
    have converted := convert_eq_ok h
    constructor
    · rw [converted.yields_eq overlooks]
      exact ih.within
    · cases converted with
      | refit refits =>
        obtain ⟨n, p, -, -, -, makes⟩ := refit_eq_some refits
        simp [integerTerm_local? makes]
      | same => exact ih.named
      | via => nofun
  case negateLiteral =>
    intro _ _ value t h
    constructor
    · rw [negatedLiteral_yields overlooks h]
      exact .nil _
    · obtain ⟨p, -, makes⟩ := negatedLiteral_eq_ok h
      simp [integerTerm_local? makes]
  case negate =>
    intro _ operand u t ih h
    constructor
    · rw [negate_yields overlooks h]
      exact ih.within
    · obtain ⟨promoted, -, -, rfl⟩ := negate_eq_ok h
      nofun
  case binary =>
    intro _ op left right l r l' r' t ihLeft ihRight promotesLeft promotesRight h
    constructor
    · rw [arithmetic_yields overlooks h, promote_yields overlooks promotesLeft,
        promote_yields overlooks promotesRight]
      exact ihLeft.within.append ihRight.within
    · obtain ⟨_, _, -, -, -, -, ⟨-, rfl⟩ | ⟨_, -, rfl⟩ | ⟨_, -, rfl⟩⟩ := arithmetic_eq_ok h <;>
        nofun
  case coalesce =>
    intro _ left right l r t ihLeft ihRight h
    constructor
    · rw [coalesceTerm_yields overlooks h]
      exact ihLeft.within.append ihRight.within
    · obtain ⟨_, -, -, ⟨_, -, rfl⟩ | ⟨_, _, -, -, rfl⟩⟩ := coalesceTerm_eq_ok h <;> nofun
  case assign =>
    intro _ target value op l r t _ ihTarget _ ihValue h
    have own : WithinFrame s.frame target.name?.toList (Term.frameUse? t).toList := by
      have made : Term.frameUse? t = l.local?.map .assigns := by
        obtain ⟨_, _, -, -, ⟨-, rfl⟩ | ⟨_, -, -, rfl⟩⟩ := assign_eq_ok h <;> rfl
      rw [made]
      cases isLocal : l.local? with
      | none => exact .nil _
      | some slot =>
        obtain ⟨name, written, denotes⟩ := ihTarget.named slot isLocal
        exact ⟨by simp [written, denotes, FrameUse.slot?], by simp⟩
    constructor
    · rw [assign_yields overlooks h]
      exact (ihTarget.within.append ihValue.within).append own
    · obtain ⟨_, _, -, -, ⟨-, rfl⟩ | ⟨_, -, -, rfl⟩⟩ := assign_eq_ok h <;> nofun
  case noIndices => exact .nil _
  case indices =>
    intro type expr rest given u terms ih converts ihRest
    rw [List.flatMap_cons, (convert_eq_ok converts).yields_eq overlooks]
    exact ih.within.append ihRest
  case noArguments => exact .nil _
  case arguments =>
    intro passing expr rest u terms ih _ ihRest
    exact ih.within.append ihRest

end Scope

end DebugExpr.Bound
