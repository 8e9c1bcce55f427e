import DebugExpr.Error
import DebugExpr.Metadata.ClosedType

/-! Snapshots of the modules loaded in a suspended process, in load order. A module holds no two
definitions of one full name, and the id of a module is its position. The core library is the first
module that defines the root class. Signatures are bound to loaded types here, and the chain of base
types is followed. -/
namespace DebugExpr.Metadata
open Text

/-- Drops the definitions whose full name occurs before. -/
def keepFirst : List TypeDefinition → List TypeDefinition
  | [] => []
  | d :: rest => d :: (keepFirst rest).filter (·.fullName != d.fullName)

theorem keepFirst_nodup (ds : List TypeDefinition) : ((keepFirst ds).map (·.fullName)).Nodup := by
  induction ds with
  | nil => simp [keepFirst]
  | cons d rest ih =>
    simp only [keepFirst, List.map_cons, List.nodup_cons]
    constructor
    · simp
    · exact (List.filter_sublist.map _).nodup ih

theorem keepFirst_sublist (ds : List TypeDefinition) : (keepFirst ds).Sublist ds := by
  induction ds with
  | nil => exact .slnil
  | cons d rest ih =>
    rw [keepFirst]
    exact (List.filter_sublist.trans ih).cons_cons d

/-- A loaded module: the assembly it belongs to and the types it defines, in order of declaration.
-/
structure Module where
  id : ModuleId
  identity : Assembly.Identity
  types : List TypeDefinition
  names_nodup : (types.map (·.fullName)).Nodup

namespace Module

/-- A module that is in no snapshot yet. Of definitions of one full name the first counts. -/
def ofDefinitions (identity : Assembly.Identity) (definitions : List TypeDefinition) : Module :=
  ⟨⟨0⟩, identity, keepFirst definitions, keepFirst_nodup definitions⟩

/-- Declared types get the rows of the definition table in order, also those that do not count. -/
def build (identity : Assembly.Identity) (declarations : List TypeDeclaration) : Module :=
  ofDefinitions identity <|
    declarations.mapIdx fun i d => d.define (.typeDefinition (i + 1).toUInt32)

/-- The simple name of the assembly. -/
def name (m : Module) : String :=
  m.identity.name

def typeNamed? (m : Module) (fullName : String) : Option TypeDefinition :=
  m.types.find? (·.fullName == fullName)

def typeAt? (m : Module) (token : Token) : Option TypeDefinition :=
  m.types.find? (·.token == token)

end Module

structure Snapshot where
  modules : List Module
  ids_eq : modules.map (·.id.index) = List.range modules.length

namespace Snapshot

def empty : Snapshot :=
  ⟨[], rfl⟩

/-- The id that the next module gets. -/
def nextId (s : Snapshot) : ModuleId :=
  ⟨s.modules.length⟩

/-- Appends a module under the next id. -/
def add (s : Snapshot) (m : Module) : Snapshot where
  modules := s.modules ++ [{ m with id := s.nextId }]
  ids_eq := by simp [s.ids_eq, List.range_succ, nextId]

def get? (s : Snapshot) (id : ModuleId) : Option Module :=
  s.modules[id.index]?

/-- All modules of a simple name, without regard to case. -/
def named (s : Snapshot) (name : String) : List Module :=
  s.modules.filter fun m => sameCaseless m.name name

/-- The first module of a simple name, without regard to case. -/
def find? (s : Snapshot) (name : String) : Option Module :=
  s.modules.find? fun m => sameCaseless m.name name

/-- The first module that defines the root class. -/
def coreLibrary? (s : Snapshot) : Option Module :=
  s.modules.find? fun m => (m.typeNamed? Primitive.object.fullName).isSome

/-- A type of the core library with generic arguments. -/
def coreType (s : Snapshot) (fullName : String) (args : List ClosedType) :
    Except Error ClosedType :=
  match s.coreLibrary? with
  | none => .error (.typeNotFound fullName)
  | some core =>
    match core.typeNamed? fullName with
    | none => .error (.typeNotFound fullName)
    | some d =>
      if d.genericParams.length = args.length then .ok (.named core.id d args)
      else .error (.unsupportedType fullName)

/-- The core library's definition of a built-in type. -/
def primitive (s : Snapshot) (p : Primitive) : Except Error ClosedType :=
  s.coreType p.fullName []

/-- A definition by name in one module. -/
def typeIn? (name : String) (m : Module) : Option (ModuleId × TypeDefinition) :=
  (m.typeNamed? name).map fun d => (m.id, d)

/-- The definition that a signature names. Without an assembly the scope comes first and then the
core library. -/
def locate (s : Snapshot) (scope : ModuleId) (assembly : Option String) (name : String) :
    Except Error (ModuleId × TypeDefinition) :=
  match assembly with
  | some assembly =>
    match s.find? assembly with
    | none => .error (.missingAssembly [.named assembly])
    | some m =>
      match typeIn? name m with
      | some found => .ok found
      | none => .error (.typeNotFound name)
  | none =>
    match ((s.get? scope).bind (typeIn? name)).or (s.coreLibrary?.bind (typeIn? name)) with
    | some found => .ok found
    | none => .error (.typeNotFound name)

mutual

/-- Binds a signature that a member of the scope writes to loaded types. Generic parameters stand
for the given arguments of the declaring type and of the method. -/
def bind (s : Snapshot) (scope : ModuleId) (typeArgs methodArgs : List ClosedType) :
    Signature → Except Error ClosedType
  | .named assembly name args => do
    let (home, d) ← s.locate scope assembly name
    if d.genericParams.length ≠ args.length then throw (.unsupportedType name)
    return .named home d (← bindAll s scope typeArgs methodArgs args)
  | .typeParameter index =>
    match typeArgs[index]? with
    | some t => .ok t
    | none => .error (.malformed (.typeParameterOutOfRange index))
  | .methodParameter index =>
    match methodArgs[index]? with
    | some t => .ok t
    | none => .error (.malformed (.methodParameterOutOfRange index))
  | .array element rank => do
    return .array (← bind s scope typeArgs methodArgs element) rank

def bindAll (s : Snapshot) (scope : ModuleId) (typeArgs methodArgs : List ClosedType) :
    List Signature → Except Error (List ClosedType)
  | [] => .ok []
  | signature :: rest => do
    let t ← bind s scope typeArgs methodArgs signature
    return t :: (← bindAll s scope typeArgs methodArgs rest)

end

/-- The base type, if there is one. An array inherits from the array class, or from the root class
in a core library without one. -/
def baseType (s : Snapshot) : ClosedType → Except Error (Option ClosedType)
  | .named home d args =>
    match d.base with
    | some base => do return some (← s.bind home args [] base)
    | none => .ok none
  | .array .. =>
    match s.coreType "System.Array" [] with
    | .ok t => .ok (some t)
    | .error _ => do return some (← s.primitive .object)

/-- Looks for `base` in the chain of base types from `derived` on, as many steps up as are left. -/
def inheritsWithin (s : Snapshot) (limit : Nat) (base : ClosedType) :
    Nat → ClosedType → Except Error Bool
  | steps, derived =>
    if derived == base then .ok true
    else
      match steps with
      | 0 => .error (.recursionLimit limit)
      | steps + 1 => do
        match ← s.baseType derived with
        | none => return false
        | some next => s.inheritsWithin limit base steps next

/-- `derived` is `base` or inherits from it, along a chain of base types of limited length. -/
def inheritsFrom (s : Snapshot) (derived base : ClosedType) (maxDepth : Nat) : Except Error Bool :=
  s.inheritsWithin maxDepth base maxDepth derived

end Snapshot

end DebugExpr.Metadata
