import Mathlib.Algebra.Ring.Nat
import DebugExpr.Bound.Term

/-! The parts of a bound term. `subterms` lists a term with everything below it, so that a rule on
single nodes becomes a rule on whole trees, `postorder` lists the same nodes in the order in which
evaluation completes them, and `induction` is the induction on terms through the lists of arguments
and indices. -/
namespace DebugExpr.Bound.Term
open Metadata Source

mutual

/-- The term and everything below it, from left to right. -/
def subterms : Term → List Term
  | null => [null]
  | constant value type => [constant value type]
  | localVar index type => [localVar index type]
  | parameter index byRef type => [parameter index byRef type]
  | this type => [this type]
  | pseudo o => [pseudo o]
  | field none f => [field none f]
  | field (some receiver) f => field (some receiver) f :: subterms receiver
  | property none p => [property none p]
  | property (some receiver) p => property (some receiver) p :: subterms receiver
  | call none m args => call none m args :: subtermsOfArgs args
  | call (some receiver) m args =>
    call (some receiver) m args :: (subterms receiver ++ subtermsOfArgs args)
  | element array indices type =>
    element array indices type :: (subterms array ++ subtermsOfAll indices)
  | conversion kind operand type => conversion kind operand type :: subterms operand
  | negate operand => negate operand :: subterms operand
  | binary op left right type => binary op left right type :: (subterms left ++ subterms right)
  | coalesce left right type => coalesce left right type :: (subterms left ++ subterms right)
  | assign target value type => assign target value type :: (subterms target ++ subterms value)
  | compound op target value type =>
    compound op target value type :: (subterms target ++ subterms value)

def subtermsOfAll : List Term → List Term
  | [] => []
  | t :: rest => subterms t ++ subtermsOfAll rest

def subtermsOfArgs : List (Bool × Term) → List Term
  | [] => []
  | (_, t) :: rest => subterms t ++ subtermsOfArgs rest

end

/-- Induction on terms. The parts of a node stand in lists or are absent, and each part has the
property already. -/
theorem induction {P : Term → Prop} (null : P null)
    (constant : ∀ value type, P (constant value type))
    (localVar : ∀ index type, P (localVar index type))
    (parameter : ∀ index byRef type, P (parameter index byRef type))
    (this : ∀ type, P (this type))
    (pseudo : ∀ o, P (pseudo o))
    (staticField : ∀ f, P (field none f))
    (field : ∀ receiver f, P receiver → P (field (some receiver) f))
    (staticProperty : ∀ p, P (property none p))
    (property : ∀ receiver p, P receiver → P (property (some receiver) p))
    (staticCall : ∀ m args, (∀ arg ∈ args, P arg.2) → P (call none m args))
    (call : ∀ receiver m args, P receiver → (∀ arg ∈ args, P arg.2) →
      P (call (some receiver) m args))
    (element : ∀ array indices type, P array → (∀ index ∈ indices, P index) →
      P (element array indices type))
    (conversion : ∀ kind operand type, P operand → P (conversion kind operand type))
    (negate : ∀ operand, P operand → P (negate operand))
    (binary : ∀ op left right type, P left → P right → P (binary op left right type))
    (coalesce : ∀ left right type, P left → P right → P (coalesce left right type))
    (assign : ∀ target value type, P target → P value → P (assign target value type))
    (compound : ∀ op target value type, P target → P value → P (compound op target value type))
    (t : Term) : P t := by
  refine Term.rec (motive_1 := P) (motive_2 := fun receiver? => ∀ receiver ∈ receiver?, P receiver)
    (motive_3 := fun args => ∀ arg ∈ args, P arg.2) (motive_4 := fun ts => ∀ t ∈ ts, P t)
    (motive_5 := fun arg => P arg.2) null constant localVar parameter this pseudo ?_ ?_ ?_ element
    conversion negate binary coalesce assign compound ?_ ?_ ?_ ?_ ?_ ?_ ?_ t
  · intro receiver? f ih
    cases receiver? with
    | none => exact staticField f
    | some receiver => exact field receiver f (ih receiver rfl)
  · intro receiver? p ih
    cases receiver? with
    | none => exact staticProperty p
    | some receiver => exact property receiver p (ih receiver rfl)
  · intro receiver? m args ih ihArgs
    cases receiver? with
    | none => exact staticCall m args ihArgs
    | some receiver => exact call receiver m args (ih receiver rfl) ihArgs
  · simp
  · rintro receiver ih _ ⟨⟩
    exact ih
  · simp
  · intro arg rest ih ihRest
    simpa using And.intro ih ihRest
  · simp
  · intro first rest ih ihRest
    simpa using And.intro ih ihRest
  · exact fun _ _ ih => ih

theorem subtermsOfAll_eq (ts : List Term) : subtermsOfAll ts = ts.flatMap subterms := by
  induction ts with
  | nil => rfl
  | cons t rest ih => simp only [subtermsOfAll, ih, List.flatMap_cons]

theorem subtermsOfArgs_eq (args : List (Bool × Term)) :
    subtermsOfArgs args = args.flatMap fun arg => arg.2.subterms := by
  induction args with
  | nil => rfl
  | cons arg rest ih => simp only [subtermsOfArgs, ih, List.flatMap_cons]

/-- The terms directly below a term. -/
def parts : Term → List Term
  | null | constant .. | localVar .. | parameter .. | this _ | pseudo _ => []
  | field receiver _ | property receiver _ => receiver.toList
  | call receiver _ args => receiver.toList ++ args.map (·.2)
  | element array indices _ => array :: indices
  | conversion _ operand _ | negate operand => [operand]
  | binary _ left right _ | coalesce left right _ => [left, right]
  | assign target value _ | compound _ target value _ => [target, value]

theorem mem_parts_call {receiver : Option Term} {m : MethodRef} {args : List (Bool × Term)}
    {arg : Bool × Term} (member : arg ∈ args) : arg.2 ∈ (call receiver m args).parts :=
  List.mem_append_right _ (List.mem_map_of_mem member)

/-- Induction on terms where the kinds of nodes do not matter. -/
theorem inductionOnParts {P : Term → Prop} (step : ∀ t, (∀ u ∈ t.parts, P u) → P t) (t : Term) :
    P t := by
  induction t using induction with
  | null | constant | localVar | parameter | this | pseudo | staticField | staticProperty =>
    exact step _ (by simp [parts])
  | field receiver f ih | property receiver p ih => exact step _ (by simpa [parts] using ih)
  | staticCall m args ih =>
    refine step _ ?_
    simpa only [parts, Option.toList_none, List.nil_append, List.forall_mem_map] using ih
  | call receiver m args ihReceiver ihArgs =>
    refine step _ ?_
    simp only [parts, Option.toList_some, List.singleton_append, List.forall_mem_cons,
      List.forall_mem_map]
    exact ⟨ihReceiver, ihArgs⟩
  | element array indices type ihArray ihIndices =>
    exact step _ (by simpa [parts] using ⟨ihArray, ihIndices⟩)
  | conversion kind operand type ih => exact step _ (by simpa [parts] using ih)
  | negate operand ih => exact step _ (by simpa [parts] using ih)
  | binary op left right type ihLeft ihRight =>
    exact step _ (by simpa [parts] using ⟨ihLeft, ihRight⟩)
  | coalesce left right type ihLeft ihRight =>
    exact step _ (by simpa [parts] using ⟨ihLeft, ihRight⟩)
  | assign target value type ihTarget ihValue =>
    exact step _ (by simpa [parts] using ⟨ihTarget, ihValue⟩)
  | compound op target value type ihTarget ihValue =>
    exact step _ (by simpa [parts] using ⟨ihTarget, ihValue⟩)

theorem subterms_eq (t : Term) : t.subterms = t :: t.parts.flatMap subterms := by
  rcases t with _ | _ | _ | _ | _ | _ | ⟨_ | _, _⟩ | ⟨_ | _, _⟩ | ⟨_ | _, _, _⟩ | _ | _ | _ | _ | _ |
    _ | _ <;>
    simp [subterms, parts, subtermsOfAll_eq, subtermsOfArgs_eq, List.flatMap_map]

theorem self_mem_subterms (t : Term) : t ∈ t.subterms := by
  simp [subterms_eq t]

/-- Every node of a term has a property. -/
def All (P : Term → Prop) (t : Term) : Prop :=
  ∀ u ∈ t.subterms, P u

theorem all_iff {P : Term → Prop} {t : Term} : t.All P ↔ P t ∧ ∀ u ∈ t.parts, u.All P := by
  simp only [All, subterms_eq t, List.forall_mem_cons, List.mem_flatMap]
  constructor
  · exact fun ⟨node, below⟩ => ⟨node, fun u part v inside => below v ⟨u, part, inside⟩⟩
  · exact fun ⟨node, below⟩ => ⟨node, fun v ⟨u, part, inside⟩ => below u part v inside⟩

theorem All.node {P : Term → Prop} {t : Term} (all : t.All P) : P t :=
  all t t.self_mem_subterms

theorem All.parts {P : Term → Prop} {t : Term} (all : t.All P) : ∀ u ∈ t.parts, u.All P :=
  (all_iff.mp all).2

/-- What holds of every node of a term holds of every node of its subterms. -/
theorem All.subterm {P : Term → Prop} {t u : Term} (all : t.All P) (inside : u ∈ t.subterms) :
    u.All P := by
  induction t using inductionOnParts with
  | step t ih =>
    rw [subterms_eq, List.mem_cons, List.mem_flatMap] at inside
    obtain rfl | ⟨v, part, inside⟩ := inside
    · exact all
    · exact ih v part (all.parts v part) inside

/-- What holds of every node holds of the parts of every node. -/
theorem All.ofParts {P : Term → Prop} {t : Term} (all : t.All P) :
    t.All fun u => ∀ v ∈ u.parts, P v :=
  fun _ inside v part => ((all.subterm inside).parts v part).node

theorem All.leaf {P : Term → Prop} {t : Term} (node : P t) (none : t.parts = []) : t.All P :=
  all_iff.mpr ⟨node, by simp [none]⟩

/-- Induction on terms of which every node has a property. -/
theorem All.induction {Q : Term → Prop} {P : (t : Term) → t.All Q → Prop}
    (null : ∀ all, P null all)
    (constant : ∀ value type all, P (constant value type) all)
    (localVar : ∀ index type all, P (localVar index type) all)
    (parameter : ∀ index byRef type all, P (parameter index byRef type) all)
    (this : ∀ type all, P (this type) all)
    (pseudo : ∀ o all, P (pseudo o) all)
    (staticField : ∀ f all, P (field none f) all)
    (field : ∀ receiver f (all : (field (some receiver) f).All Q),
      P receiver (all.parts receiver (by simp [Term.parts])) → P (field (some receiver) f) all)
    (staticProperty : ∀ p all, P (property none p) all)
    (property : ∀ receiver p (all : (property (some receiver) p).All Q),
      P receiver (all.parts receiver (by simp [Term.parts])) → P (property (some receiver) p) all)
    (staticCall : ∀ m args (all : (call none m args).All Q),
      (∀ arg (member : arg ∈ args), P arg.2 (all.parts arg.2 (mem_parts_call member))) →
      P (call none m args) all)
    (call : ∀ receiver m args (all : (call (some receiver) m args).All Q),
      P receiver (all.parts receiver (by simp [Term.parts])) →
      (∀ arg (member : arg ∈ args), P arg.2 (all.parts arg.2 (mem_parts_call member))) →
      P (call (some receiver) m args) all)
    (element : ∀ array indices type (all : (element array indices type).All Q),
      P array (all.parts array (by simp [Term.parts])) →
      (∀ index (member : index ∈ indices),
        P index (all.parts index (by simp [Term.parts, member]))) →
      P (element array indices type) all)
    (conversion : ∀ kind operand type (all : (conversion kind operand type).All Q),
      P operand (all.parts operand (by simp [Term.parts])) → P (conversion kind operand type) all)
    (negate : ∀ operand (all : (negate operand).All Q),
      P operand (all.parts operand (by simp [Term.parts])) → P (negate operand) all)
    (binary : ∀ op left right type (all : (binary op left right type).All Q),
      P left (all.parts left (by simp [Term.parts])) →
      P right (all.parts right (by simp [Term.parts])) → P (binary op left right type) all)
    (coalesce : ∀ left right type (all : (coalesce left right type).All Q),
      P left (all.parts left (by simp [Term.parts])) →
      P right (all.parts right (by simp [Term.parts])) → P (coalesce left right type) all)
    (assign : ∀ target value type (all : (assign target value type).All Q),
      P target (all.parts target (by simp [Term.parts])) →
      P value (all.parts value (by simp [Term.parts])) → P (assign target value type) all)
    (compound : ∀ op target value type (all : (compound op target value type).All Q),
      P target (all.parts target (by simp [Term.parts])) →
      P value (all.parts value (by simp [Term.parts])) → P (compound op target value type) all)
    (t : Term) (all : t.All Q) : P t all := by
  induction t using Term.induction with
  | null => exact null all
  | constant value type => exact constant value type all
  | localVar index type => exact localVar index type all
  | parameter index byRef type => exact parameter index byRef type all
  | this type => exact this type all
  | pseudo o => exact pseudo o all
  | staticField f => exact staticField f all
  | field receiver f ih => exact field receiver f all (ih _)
  | staticProperty p => exact staticProperty p all
  | property receiver p ih => exact property receiver p all (ih _)
  | staticCall m args ih => exact staticCall m args all fun arg member => ih arg member _
  | call receiver m args ihReceiver ihArgs =>
    exact call receiver m args all (ihReceiver _) fun arg member => ihArgs arg member _
  | element array indices type ihArray ihIndices =>
    exact element array indices type all (ihArray _) fun index member => ihIndices index member _
  | conversion kind operand type ih => exact conversion kind operand type all (ih _)
  | negate operand ih => exact negate operand all (ih _)
  | binary op left right type ihLeft ihRight =>
    exact binary op left right type all (ihLeft _) (ihRight _)
  | coalesce left right type ihLeft ihRight =>
    exact coalesce left right type all (ihLeft _) (ihRight _)
  | assign target value type ihTarget ihValue =>
    exact assign target value type all (ihTarget _) (ihValue _)
  | compound op target value type ihTarget ihValue =>
    exact compound op target value type all (ihTarget _) (ihValue _)

mutual

/-- The term and everything below it, each node behind its parts. -/
def postorder : Term → List Term
  | null => [null]
  | constant value type => [constant value type]
  | localVar index type => [localVar index type]
  | parameter index byRef type => [parameter index byRef type]
  | this type => [this type]
  | pseudo o => [pseudo o]
  | field none f => [field none f]
  | field (some receiver) f => postorder receiver ++ [field (some receiver) f]
  | property none p => [property none p]
  | property (some receiver) p => postorder receiver ++ [property (some receiver) p]
  | call none m args => postorderOfArgs args ++ [call none m args]
  | call (some receiver) m args =>
    postorder receiver ++ postorderOfArgs args ++ [call (some receiver) m args]
  | element array indices type =>
    postorder array ++ postorderOfAll indices ++ [element array indices type]
  | conversion kind operand type => postorder operand ++ [conversion kind operand type]
  | negate operand => postorder operand ++ [negate operand]
  | binary op left right type => postorder left ++ postorder right ++ [binary op left right type]
  | coalesce left right type => postorder left ++ postorder right ++ [coalesce left right type]
  | assign target value type => postorder target ++ postorder value ++ [assign target value type]
  | compound op target value type =>
    postorder target ++ postorder value ++ [compound op target value type]

def postorderOfAll : List Term → List Term
  | [] => []
  | t :: rest => postorder t ++ postorderOfAll rest

def postorderOfArgs : List (Bool × Term) → List Term
  | [] => []
  | (_, t) :: rest => postorder t ++ postorderOfArgs rest

end

theorem postorderOfAll_eq (ts : List Term) : postorderOfAll ts = ts.flatMap postorder := by
  induction ts with
  | nil => rfl
  | cons t rest ih => simp only [postorderOfAll, ih, List.flatMap_cons]

theorem postorderOfArgs_eq (args : List (Bool × Term)) :
    postorderOfArgs args = args.flatMap fun arg => arg.2.postorder := by
  induction args with
  | nil => rfl
  | cons arg rest ih => simp only [postorderOfArgs, ih, List.flatMap_cons]

theorem postorder_eq (t : Term) : t.postorder = t.parts.flatMap postorder ++ [t] := by
  rcases t with _ | _ | _ | _ | _ | _ | ⟨_ | _, _⟩ | ⟨_ | _, _⟩ | ⟨_ | _, _, _⟩ | _ | _ | _ | _ | _ |
    _ | _ <;>
    simp [postorder, parts, postorderOfAll_eq, postorderOfArgs_eq, List.flatMap_map]

theorem mem_postorder {t u : Term} : u ∈ t.postorder ↔ u ∈ t.subterms := by
  induction t using inductionOnParts with
  | step t ih =>
    rw [postorder_eq, subterms_eq, List.mem_append, List.mem_singleton, List.mem_cons, or_comm,
      List.mem_flatMap, List.mem_flatMap]
    exact or_congr_right (exists_congr fun v => and_congr_right fun part => ih v part)

/-- What the nodes of a term yield in order is what its parts yield and then what it yields. -/
theorem filterMap_postorder {α : Type} (f : Term → Option α) (t : Term) :
    t.postorder.filterMap f =
      t.parts.flatMap (fun u => u.postorder.filterMap f) ++ (f t).toList := by
  rw [postorder_eq, List.filterMap_append, List.filterMap_flatMap]
  cases found : f t <;> simp [found]

end DebugExpr.Bound.Term
