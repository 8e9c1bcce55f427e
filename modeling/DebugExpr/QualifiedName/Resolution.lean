import DebugExpr.Metadata.Snapshot
import DebugExpr.QualifiedName.Printer
import DebugExpr.QualifiedName.Reader

/-! Resolution of type names against a snapshot. All loaded modules count, not only those that the
suspended method refers to. A name that states an assembly is looked for in the modules that match
it, those of the very version first; an unqualified one in the context module and then in the core
library. Assemblies that are missing are collected over the whole name, so that the host can load
all of them before it asks again; a type that cannot be represented counts before any of them. -/
namespace DebugExpr.QualifiedName
open Metadata

/-- Why a name is no loaded type. -/
inductive Failure where
  /-- Loading more assemblies would not help. -/
  | unsupported (name : String)
  /-- The assemblies that are not loaded, each once. -/
  | missing (references : List Assembly.Reference)
  deriving DecidableEq

abbrev Resolution (α : Type) := Except Failure α

namespace Failure

def toError : Failure → DebugExpr.Error
  | unsupported name => .unsupportedType name
  | missing references => .missingAssembly references

/-- The references of both lists, each once, in order of appearance. -/
def merge (rs rs' : List Assembly.Reference) : List Assembly.Reference :=
  rs ++ rs'.filter (!rs.contains ·)

end Failure

namespace Resolution

variable {α β : Type}

/-- Both results. Of two unsupported types the first is reported, an unsupported type before missing
assemblies, and missing assemblies together. -/
def both : Resolution α → Resolution β → Resolution (α × β)
  | .ok a, .ok b => .ok (a, b)
  | .ok _, .error e => .error e
  | .error (.unsupported name), _ => .error (.unsupported name)
  | .error (.missing rs), .ok _ => .error (.missing rs)
  | .error (.missing _), .error (.unsupported name) => .error (.unsupported name)
  | .error (.missing rs), .error (.missing rs') => .error (.missing (Failure.merge rs rs'))

/-- All results, combined from the left. -/
def all : List (Resolution α) → Resolution (List α)
  | [] => .ok []
  | r :: rest => (both r (all rest)).map fun (a, as) => a :: as

end Resolution

/-- What names are resolved against. -/
structure Resolver where
  snapshot : Snapshot
  /-- The module searched first for unqualified names. -/
  contextModule : Option ModuleId := none
  matching : Assembly.Policy := .nameOnly
  /-- The nesting of generic arguments that is followed. -/
  maxDepth : Nat := defaultMaxDepth

namespace Resolver

/-- The modules to search, in order. -/
def candidates (r : Resolver) : Origin → Resolution (List Module)
  | .assembly reference =>
    match r.snapshot.modules.filter fun m => r.matching.accepts reference m.identity with
    | [] => .error (.missing [reference])
    | found =>
      let (sameVersion, others) :=
        found.partition fun m => reference.version == some m.identity.version
      .ok (sameVersion ++ others)
  | .inModule id =>
    match r.snapshot.get? id with
    | some m => .ok [m]
    | none => .error (.unsupported id.display)
  | .unqualified =>
    let context := (r.contextModule.bind r.snapshot.get?).toList
    let core := r.snapshot.coreLibrary?.toList.filter fun m => context.all (·.id != m.id)
    .ok (context ++ core)

/-- The definition that the path names, which has as many parameters as there are arguments. -/
def locate (r : Resolver) (t : QualifiedName) : Resolution (ModuleId × TypeDefinition) := do
  let modules ← r.candidates t.origin
  match modules.findSome? (Snapshot.typeIn? t.fullName) with
  | some (home, d) =>
    if d.genericParams.length = t.args.length then return (home, d)
    else throw (.unsupported t.written)
  | none => throw (.unsupported t.written)

/-- Wraps a type in the arrays of the suffixes. -/
def applySuffixes (suffixes : List Suffix) (t : ClosedType) : ClosedType :=
  suffixes.foldl
    (fun t suffix =>
      match suffix with
      | .array rank => .array t rank
      | _ => t)
    t

/-- Resolves a name of which as many levels of arguments are followed as are left. -/
def resolveWithin (r : Resolver) : Nat → QualifiedName → Resolution ClosedType
  | 0, t => .error (.unsupported t.written)
  | levels + 1, t =>
    if t.isIndirect then .error (.unsupported t.written)
    else
      ((r.locate t).both (.all (t.args.map (r.resolveWithin levels)))).map fun ((home, d), args) =>
        applySuffixes t.suffixes (.named home d args)

def resolve (r : Resolver) (t : QualifiedName) : Resolution ClosedType :=
  r.resolveWithin r.maxDepth t

/-- Resolves a name into a type or the error to report. -/
def resolveType (r : Resolver) (t : QualifiedName) : Except DebugExpr.Error ClosedType :=
  (r.resolve t).mapError Failure.toError

end Resolver

end DebugExpr.QualifiedName
