import DebugExpr.Compile

/-! A process in which only a core library is loaded. It defines every built-in type and a program
that can be stopped. Results with hypotheses are applied in it, so that the hypotheses are seen to
hold somewhere. -/
namespace DebugExpr.Sample
open Metadata DebugExpr.Bound

/-- The core library's definition of a built-in type. -/
def definition (p : Primitive) : TypeDefinition :=
  TypeDeclaration.define
    { fullName := p.fullName
      kind := if p.isValueType then .valueType else .classType
      primitive := some p }
    (.typeDefinition (Primitive.all.idxOf p + 1).toUInt32)

/-- A class with a method that returns nothing. -/
def program : TypeDefinition :=
  TypeDeclaration.define
    { fullName := "Program"
      kind := .classType
      methods := [⟨"Stop", true, [], [], none⟩] }
    (.typeDefinition (Primitive.all.length + 1).toUInt32)

def core : Module :=
  .ofDefinitions ⟨"Core", ⟨1, 0, 0, 0⟩, none, none⟩ (Primitive.all.map definition ++ [program])

def type (p : Primitive) : ClosedType :=
  .named ⟨0⟩ (definition p) []

/-- A static method of the program. -/
def scope (parameters : List FrameParameter) (locals : List FrameLocal) : Scope where
  snapshot := Snapshot.empty.add core
  frame := ⟨⟨0⟩, .named ⟨0⟩ program [], "Main", true, parameters, locals⟩
  context := {}
  config := {}

end DebugExpr.Sample
