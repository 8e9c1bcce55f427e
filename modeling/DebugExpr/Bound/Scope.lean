import DebugExpr.Bound.Config
import DebugExpr.Bound.Term

/-! The surroundings of an expression: the method in which the process is suspended, the snapshot of
loaded modules, what the debugger supplies, and the settings. Types as written are looked up here.
-/
namespace DebugExpr.Bound
open Metadata Source

structure FrameLocal where
  name : String
  type : ClosedType

structure FrameParameter where
  name : String
  /-- The declared type, without the marker of a parameter passed by reference. -/
  type : ClosedType
  byRef : Bool

/-- The suspended method. An expression is compiled as if it stood inside: the locals, the
parameters and the members of the containing type are in scope, and the locals take the first local
slots. -/
structure Frame where
  home : ModuleId
  containing : ClosedType
  methodName : String
  /-- There is no `this`. -/
  isStatic : Bool
  parameters : List FrameParameter
  locals : List FrameLocal

namespace Frame

/-- The parameters of a method with their types bound. -/
def bindParameters (s : Snapshot) (home : ModuleId) :
    List Parameter → Except Error (List FrameParameter)
  | [] => .ok []
  | p :: rest => do
    let type ← s.bind home [] [] p.signature
    return ⟨p.name, type, p.byRef⟩ :: (← bindParameters s home rest)

/-- The first method of a name on a type of a module. Generic types and methods have no frame. -/
def find (s : Snapshot) (home : ModuleId) (typeName methodName : String) : Except Error Frame :=
  match (s.get? home).bind (·.typeNamed? typeName) with
  | none => .error (.typeNotFound typeName)
  | some d =>
    if !d.genericParams.isEmpty then .error (.unsupportedType d.fullName)
    else
      match d.methodsNamed methodName with
      | [] => .error (.memberNotFound typeName methodName)
      | m :: _ =>
        if !m.genericParams.isEmpty then .error (.unsupportedType s!"{typeName}.{methodName}")
        else do
          let parameters ← bindParameters s home m.params
          return ⟨home, .named home d [], m.name, m.isStatic, parameters, []⟩

/-- Declares the next local slots. -/
def withLocals (f : Frame) (locals : List FrameLocal) : Frame :=
  { f with locals := f.locals ++ locals }

/-- Indices are held in sixteen bits. -/
def indexLimit : Nat := UInt16.size

/-- The first local of a name and its slot. -/
def local? (f : Frame) (name : String) : Option (Nat × FrameLocal) :=
  match f.locals.findIdx? (·.name == name) with
  | none => none
  | some index => if index < indexLimit then f.locals[index]?.map (index, ·) else none

/-- The first parameter of a name and its argument index, before which `this` may stand. -/
def parameter? (f : Frame) (name : String) : Option (Nat × FrameParameter) :=
  match f.parameters.findIdx? (·.name == name) with
  | none => none
  | some index =>
    let argument := index + if f.isStatic then 0 else 1
    if argument < indexLimit then f.parameters[index]?.map (argument, ·) else none

end Frame

structure Scope where
  snapshot : Snapshot
  frame : Frame
  context : Pseudo.Context
  config : Config
  /-- Assignments may be bound. -/
  allowsSideEffects : Bool := true

namespace Scope

/-- Resolves type names of the debugger as the settings say, from the module of the frame. -/
def resolver (s : Scope) : QualifiedName.Resolver where
  snapshot := s.snapshot
  contextModule := some s.frame.home
  matching := .ofMatching s.config.matching
  maxDepth := s.config.maxTypeNameDepth

/-- A definition by full name, in the module of the frame, in the core library, or in any module. -/
def locateType? (s : Scope) (fullName : String) : Option (ModuleId × TypeDefinition) :=
  ((s.snapshot.get? s.frame.home).toList ++ s.snapshot.coreLibrary?.toList ++ s.snapshot.modules)
    |>.findSome? (Snapshot.typeIn? fullName)

/-- The metadata name of a written name of which the first names are a namespace. -/
def metadataName (space nested : List (String × Nat)) : String :=
  let types := nested.map fun (name, arity) => if arity = 0 then name else s!"{name}\x60{arity}"
  (if space.isEmpty then "" else ".".intercalate (space.map (·.1)) ++ ".") ++ "+".intercalate types

/-- Finds a written name by its parts and their numbers of type arguments. As many names as possible
are taken as a namespace, of which none has type arguments. -/
def findNamed? (s : Scope) (segments : List (String × Nat)) :
    Option (String × ModuleId × TypeDefinition) :=
  (List.range segments.length).reverse.findSome? fun split =>
    let space := segments.take split
    if space.any (·.2 != 0) then none
    else
      let fullName := metadataName space (segments.drop split)
      (s.locateType? fullName).map (fullName, ·)

mutual

/-- The type that a written type means. -/
def resolveType (s : Scope) : TypeExpr → Except Error ClosedType
  | .keyword p => s.snapshot.primitive p
  | .nullable inner => do
    let inner ← resolveType s inner
    s.snapshot.coreType nullableName [inner]
  | .array element rank => do
    let element ← resolveType s element
    return .array element rank
  | .named isGlobal segments => do
    let args ← resolveSegments s segments
    match s.findNamed? (segments.map fun (name, args) => (name, args.length)) with
    | none => throw (.typeNotFound (TypeExpr.named isGlobal segments).display)
    | some (fullName, home, d) =>
      if d.genericParams.length ≠ args.length then throw (.unsupportedType fullName)
      return .named home d args

/-- The type arguments of all parts of a name. -/
def resolveSegments (s : Scope) : List (String × List TypeExpr) → Except Error (List ClosedType)
  | [] => .ok []
  | (_, args) :: rest => do
    let own ← resolveTypes s args
    return own ++ (← resolveSegments s rest)

def resolveTypes (s : Scope) : List TypeExpr → Except Error (List ClosedType)
  | [] => .ok []
  | t :: rest => do
    let type ← resolveType s t
    return type :: (← resolveTypes s rest)

end

end Scope

end DebugExpr.Bound
