import DebugExpr.Proofs.LoadedTypes
import DebugExpr.Proofs.Requests
import DebugExpr.Proofs.SampleScope

/-! Names that reach the inspection context. A compiled request depends on what the context answers
for its simple names alone, and for these only where the frame gives them no meaning. What stands
behind a dot or `global::`, or names a type, is never looked for among the context's entries. -/
namespace DebugExpr
open Metadata DebugExpr.Bound DebugExpr.Source

namespace Pseudo

/-- Both contexts answer for a name in the same way. -/
structure Context.Alike (first second : Context) (name : String) : Prop where
  lookup : second.lookup? (Kind.ofLexeme name) = first.lookup? (Kind.ofLexeme name)
  byDefault : second.knowsByDefault (Kind.ofLexeme name) = first.knowsByDefault (Kind.ofLexeme name)
  declared : second.declared? name = first.declared? name

variable {r : QualifiedName.Resolver} {first second : Context} {name : String}

theorem bindKind_eq {kind : Kind} (lookup : second.lookup? kind = first.lookup? kind)
    (returned : String) :
    bindKind r second name kind returned = bindKind r first name kind returned := by
  rw [bindKind, bindKind, lookup]

theorem isRecognized_eq {kind : Kind} (lookup : second.lookup? kind = first.lookup? kind)
    (byDefault : second.knowsByDefault kind = first.knowsByDefault kind) :
    isRecognized second kind = isRecognized first kind := by
  cases kind <;> simp only [isRecognized, lookup, byDefault]

theorem bind_eq (alike : first.Alike second name) : bind r second name = bind r first name := by
  obtain ⟨lookup, byDefault, declared⟩ := alike
  unfold bind
  generalize Kind.ofLexeme name = kind at lookup byDefault
  split
  · rw [bindDeclared, bindDeclared, declared]
  · rw [isRecognized_eq lookup byDefault, bindKind_eq lookup]

theorem Context.get?_insert_of_ne {context : Context} {key other : String} {entry : Entry}
    (differs : other ≠ key) : (context.insert key entry).get? other = context.get? other := by
  have kept : (fun e : String × Entry => decide ((e.1 != key) = true ∧ (e.1 == other) = true)) =
      fun e => e.1 == other := by
    funext e
    by_cases same : e.1 = other
    · simp [same, differs]
    · simp [same]
  have last : [(key, entry)].find? (·.1 == other) = none := by simp [differs.symm]
  simp only [get?, insert, List.find?_append, List.find?_filter, kept, last, Option.or_none]

/-- An entry changes no answer for a name that neither is its key nor spells it. -/
theorem Context.alike_insert {context : Context} {key : String} {entry : Entry}
    (differs : name ≠ key) (unspelled : (Kind.ofLexeme name).entryKey? ≠ some key) :
    context.Alike (context.insert key entry) name where
  lookup := by
    unfold lookup?
    cases spelled : (Kind.ofLexeme name).entryKey? with
    | none => rfl
    | some other => exact get?_insert_of_ne fun same => unspelled (same ▸ spelled)
  byDefault := rfl
  declared := by
    unfold declared?
    split
    · rfl
    · rfl
    · exact get?_insert_of_ne differs

end Pseudo

namespace Request

/-- Every simple name of the request that the frame gives no meaning has the property. -/
def EachInspected (s : Scope) (request : Request) (P : String → Prop) : Prop :=
  ∀ e, request.parse s = .ok e → ∀ name ∈ e.simpleNames, ¬(request.scope s).Ordinary name → P name

theorem compile_eq_of_alike {s : Scope} {request : Request} {context : Pseudo.Context}
    (alike : request.EachInspected s (s.context.Alike context)) :
    request.compile { s with context } = request.compile s := by
  have follows : Follows (fun _ => True) (fun _ => False) True s s.snapshot context :=
    { agree :=
        { core := rfl
          locate := fun _ _ _ => .of_raises fun _ _ => trivial
          plain := fun _ => trivial
          bound := id }
      frame := .inl trivial
      home := .inl trivial }
  refine (request.compile_tracks follows fun e parsed sub below =>
    ⟨fun name isName unordinary => ?_, ?_⟩).eq
  · have listed : name ∈ e.simpleNames := List.mem_filterMap.mpr ⟨sub, below, isName⟩
    have same := alike e parsed name listed unordinary
    have resolver : ((request.scope s).moved s.snapshot context).resolver =
        (request.scope s).resolver := by cases request <;> rfl
    have before : (request.scope s).context = s.context := by cases request <;> rfl
    rw [resolver, before, Pseudo.bind_eq same]
    exact .of_raises fun _ _ => trivial
  · cases request <;> exact fun _ _ => rfl

/-- Two inspection contexts that answer alike for the simple names that the frame gives no meaning
are the same to a request. So is one with a further entry that none of these names spells: locals,
parameters and members of the containing type shield the context, and other names do not reach it. -/
theorem context_shielded (s : Scope) (request : Request) :
    (∀ context, request.EachInspected s (s.context.Alike context) →
      request.compile { s with context } = request.compile s) ∧
    ∀ key entry,
      request.EachInspected s
        (fun name => name ≠ key ∧ (Pseudo.Kind.ofLexeme name).entryKey? ≠ some key) →
      request.compile { s with context := s.context.insert key entry } = request.compile s := by
  refine ⟨fun _ => compile_eq_of_alike, fun key entry inspected => compile_eq_of_alike ?_⟩
  intro e parsed name listed unordinary
  obtain ⟨differs, unspelled⟩ := inspected e parsed name listed unordinary
  exact Pseudo.Context.alike_insert differs unspelled

end Request

namespace Sample

/-- A number `y` is declared in the debugger beside a local `x`. -/
def declared : Scope :=
  let stopped := scope [] [⟨"x", type .int32⟩]
  { stopped with context := stopped.context.insert "y" (.qualifiedName "System.Int32") }

/-- Only the declared number is inspected in a sum of both. -/
theorem sum_inspected {P : String → Prop} (holds : P "y") :
    (Request.expression "x + y" {}).EachInspected declared P := by
  intro e parsed name listed unordinary
  have names : ((Request.expression "x + y" {}).parse declared).map Expr.simpleNames =
      .ok ["x", "y"] := by decide +kernel
  rw [parsed] at names
  rw [Except.ok.inj names] at listed
  rcases List.mem_cons.mp listed with rfl | listed
  · exact absurd (.inl rfl) unordinary
  · rwa [List.mem_singleton.mp listed]

end Sample

/-- Neither an entry that a local shadows nor the answer to unknown addresses matters to a sum. -/
theorem sum_shielded :
    (∃ compiled, (Request.expression "x + y" {}).compile Sample.declared = .ok compiled) ∧
    (Request.expression "x + y" {}).compile { Sample.declared with
        context := { Sample.declared.context with debuggerDefault := true } } =
      (Request.expression "x + y" {}).compile Sample.declared ∧
    (Request.expression "x + y" {}).compile { Sample.declared with
        context := Sample.declared.context.insert "x" (.qualifiedName "System.String") } =
      (Request.expression "x + y" {}).compile Sample.declared := by
  refine ⟨ok_of_isSome (by decide +kernel), ?_, ?_⟩
  · exact (Request.context_shielded Sample.declared (.expression "x + y" {})).1 _
      (Sample.sum_inspected ⟨rfl, rfl, rfl⟩)
  · exact (Request.context_shielded Sample.declared (.expression "x + y" {})).2 "x" _
      (Sample.sum_inspected (by decide +kernel))

end DebugExpr
