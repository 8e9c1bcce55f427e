import DebugExpr.Metadata.Signature
import DebugExpr.Metadata.Token
import DebugExpr.Text.Split

/-! Type definitions of a loaded module and their members. A nested type lists the types around it,
outermost first; by the convention of the format its generic parameters repeat those of the types
around it. Metadata names join nested names by a plus sign and write a generic arity after a
backtick, as in ``Ns.Outer+Inner`1``. -/
namespace DebugExpr.Metadata
open Text

/-- A field, or a property that is read through its getter. -/
structure Member where
  name : String
  signature : Signature
  isStatic : Bool
  deriving Repr, Inhabited

structure Parameter where
  name : String
  /-- The declared type, without the marker of a parameter passed by reference. -/
  signature : Signature
  byRef : Bool
  deriving Repr, Inhabited

structure Method where
  name : String
  isStatic : Bool
  genericParams : List String
  params : List Parameter
  /-- Absent for a method that returns nothing. -/
  returns : Option Signature
  deriving Repr, Inhabited

inductive TypeKind where
  | classType
  | valueType
  | interfaceType
  deriving DecidableEq, Repr, Inhabited

structure TypeDefinition where
  token : Token
  /-- Empty in the global namespace. -/
  space : String
  /-- The simple name with its arity. -/
  name : String
  /-- Names of the types around it with their arities, outermost first. -/
  enclosing : List String
  kind : TypeKind
  genericParams : List String
  /-- Absent for the root class and for interfaces. -/
  base : Option Signature
  fields : List Member
  properties : List Member
  methods : List Method
  /-- Set for the built-in types of the core library. -/
  primitive : Option Primitive
  deriving Repr, Inhabited

/-- Cuts the arity off a metadata name. What follows the last backtick has to be a count; a name
without one is not generic. -/
def cutArity (segment : String) : String × Nat :=
  match cutLast '\x60' segment.toList with
  | none => (segment, 0)
  | some (name, digits) =>
    match count? digits with
    | some arity => (String.ofList name, arity)
    | none => (segment, 0)

namespace TypeDefinition

/-- The names from the outermost enclosing type to this one. -/
def segments (d : TypeDefinition) : List String :=
  d.enclosing ++ [d.name]

/-- The metadata name with namespace and enclosing types. -/
def fullName (d : TypeDefinition) : String :=
  (if d.space.isEmpty then "" else d.space ++ ".") ++ "+".intercalate d.segments

/-- The generic wrapper of optional values, displayed with a question mark. -/
def isNullable (d : TypeDefinition) : Bool :=
  d.enclosing.isEmpty && d.space == "System" && d.name == "Nullable\x601" && d.kind == .valueType

def field? (d : TypeDefinition) (name : String) : Option Member :=
  d.fields.find? (·.name == name)

def property? (d : TypeDefinition) (name : String) : Option Member :=
  d.properties.find? (·.name == name)

def methodsNamed (d : TypeDefinition) (name : String) : List Method :=
  d.methods.filter (·.name == name)

end TypeDefinition

/-- The metadata name of the wrapper of optional values. -/
def nullableName : String := "System.Nullable\x601"

/-- A type as a module declares it, before it has a token and the parts that are left implicit. -/
structure TypeDeclaration where
  fullName : String
  kind : TypeKind
  genericParams : List String := []
  base : Option Signature := none
  fields : List Member := []
  properties : List Member := []
  methods : List Method := []
  primitive : Option Primitive := none
  deriving Repr, Inhabited

namespace TypeDeclaration

/-- Cuts a metadata name into namespace, enclosing types and simple name. The namespace ends at the
last dot of the outermost name. -/
def splitName (fullName : String) : String × List String × String :=
  match fullName.toList.splitOn '+' with
  | [] => ("", [], "")
  | outer :: inner =>
    let (space, outer) := (cutLast '.' outer).getD ([], outer)
    let names := (outer :: inner).map String.ofList
    (String.ofList space, names.dropLast, names.getLastD "")

/-- The base of a type that states none. The root class has none. -/
def defaultBase (primitive : Option Primitive) : TypeKind → Option Signature
  | .classType => if primitive = some .object then none else some (.ofPrimitive .object)
  | .valueType => if primitive = some .object then none else some (.plain "System.ValueType")
  | .interfaceType => none

/-- Completes the declaration: generic parameters up to the arity of the name that are not named are
called `T` and their position. -/
def define (d : TypeDeclaration) (token : Token) : TypeDefinition :=
  let (space, enclosing, name) := splitName d.fullName
  let arity := (enclosing ++ [name]).foldr (fun segment total => (cutArity segment).2 + total) 0
  let unnamed := (List.range' d.genericParams.length (arity - d.genericParams.length)).map
    fun index => s!"T{index}"
  { token, space, name, enclosing
    kind := d.kind
    genericParams := d.genericParams ++ unnamed
    base := d.base.or (defaultBase d.primitive d.kind)
    fields := d.fields
    properties := d.properties
    methods := d.methods
    primitive := d.primitive }

end TypeDeclaration

end DebugExpr.Metadata
