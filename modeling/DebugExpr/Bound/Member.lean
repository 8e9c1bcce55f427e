import DebugExpr.Bound.Scope

/-! The search for members by name, on a type and then along its base types. On one type a method
comes before a field and a property where it is called, and after them where it is not. -/
namespace DebugExpr.Bound
open Metadata

inductive Member where
  | field (f : MemberRef)
  | property (p : MemberRef)
  /-- All methods of the name on the type that declares them. -/
  | methods (declaring : ClosedType) (methods : List Method)

namespace Scope

/-- A field or property of a named type, with its type bound. -/
def memberRef (s : Scope) (declaring : ClosedType) (home : ModuleId) (args : List ClosedType)
    (m : Metadata.Member) : Except Error MemberRef := do
  let type ← s.snapshot.bind home args [] m.signature
  return ⟨declaring, m.name, type, m.isStatic⟩

/-- The members of a name that a type declares itself. An array declares none. -/
def declaredMember (s : Scope) (name : String) (invoked : Bool) (type : ClosedType) :
    Except Error (Option Member) :=
  match type with
  | .array .. => .ok none
  | .named home d args =>
    let methods := d.methodsNamed name
    let group := if methods.isEmpty then none else some (Member.methods type methods)
    if invoked && group.isSome then .ok group
    else
      match d.field? name with
      | some f => do return some (.field (← s.memberRef type home args f))
      | none =>
        match d.property? name with
        | some p => do return some (.property (← s.memberRef type home args p))
        | none => .ok group

/-- Looks for a member on a type and as many base types as are left. -/
def findMemberWithin (s : Scope) (name : String) (invoked : Bool) :
    Nat → ClosedType → Except Error (Option Member)
  | steps, type => do
    match ← s.declaredMember name invoked type with
    | some found => return some found
    | none =>
      match steps with
      | 0 => throw (.recursionLimit s.config.maxInheritanceDepth)
      | steps + 1 =>
        match ← s.snapshot.baseType type with
        | none => return none
        | some base => s.findMemberWithin name invoked steps base

/-- Looks for a member along the chain of base types. -/
def findMember (s : Scope) (type : ClosedType) (name : String) (invoked : Bool) :
    Except Error (Option Member) :=
  s.findMemberWithin name invoked s.config.maxInheritanceDepth type

end Scope

end DebugExpr.Bound
