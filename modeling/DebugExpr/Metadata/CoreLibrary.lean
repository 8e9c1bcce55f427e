import DebugExpr.Metadata.Snapshot

/-! A small core library with the types that expressions rely on: the root types, the built-in
types, exceptions, type objects and the wrapper of optional values. -/
namespace DebugExpr.Metadata.CoreLibrary
open Assembly

def identity (version : Version) : Identity where
  name := "mscorlib"
  version := version
  culture := none
  keyToken := some ⟨[0xb7, 0x7a, 0x5c, 0x56, 0x19, 0x34, 0xe0, 0x89], rfl⟩

private def instanceProperty (name : String) (signature : Signature) : Member :=
  ⟨name, signature, false⟩

private def plainClass (fullName base : String) : TypeDeclaration :=
  { fullName, kind := .classType, base := some (.plain base) }

/-- The built-in value types. -/
def valuePrimitives : List Primitive :=
  Primitive.all.filter (·.isValueType)

def declarations : List TypeDeclaration :=
  [ { fullName := "System.Object", kind := .classType, primitive := some .object },
    { fullName := "System.ValueType", kind := .classType },
    { fullName := "System.Array", kind := .classType
      properties := [instanceProperty "Length" (.ofPrimitive .int32)] },
    { fullName := "System.String", kind := .classType, primitive := some .string
      properties := [instanceProperty "Length" (.ofPrimitive .int32)] } ] ++
  (valuePrimitives.map fun p =>
    { fullName := p.fullName, kind := .valueType, primitive := some p }) ++
  [ { fullName := "System.Exception", kind := .classType
      properties :=
        [ instanceProperty "InnerException" (.plain "System.Exception"),
          instanceProperty "Message" (.ofPrimitive .string) ] },
    plainClass "System.SystemException" "System.Exception",
    plainClass "System.IO.IOException" "System.SystemException",
    plainClass "System.InvalidOperationException" "System.SystemException",
    { fullName := "System.Type", kind := .classType
      properties :=
        [ instanceProperty "BaseType" (.plain "System.Type"),
          instanceProperty "Name" (.ofPrimitive .string) ] },
    { fullName := nullableName, kind := .valueType, genericParams := ["T"]
      properties :=
        [ instanceProperty "HasValue" (.ofPrimitive .boolean),
          instanceProperty "Value" (.typeParameter 0) ] } ]

/-- The core library of the given version. -/
def build (version : Version) : Module :=
  Module.build (identity version) declarations

end DebugExpr.Metadata.CoreLibrary
