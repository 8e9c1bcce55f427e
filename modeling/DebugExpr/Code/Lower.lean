import DebugExpr.Code.Block
import DebugExpr.Code.Layout
import DebugExpr.Code.TypedOpcode

/-! From bound terms to instructions. For each term `lower` gives the ways in which code can use it:
to push its value, to push the address of its storage, and to store into it. A value without storage
is copied to a temporary before its address is taken. The locals of the suspended method take the
first local slots and the temporaries follow. -/
namespace DebugExpr.Code
open Metadata Source DebugExpr.Bound

/-- The ways to use a term. -/
structure Lowering where
  /-- Pushes the value. -/
  value : Block
  /-- Pushes a managed reference to the storage, or to a copy in a temporary. -/
  address : Block
  /-- Pushes what a store needs below the value. -/
  beforeStore : Block
  /-- Stores the value on the stack. -/
  store : Block
  /-- A store needs nothing below the value. -/
  storesDirectly : Bool

/-- Code that depends on the type of a term. -/
def withType (t : Term) (code : ClosedType → Block) : Block :=
  match t.type? with
  | some type => code type
  | none => .fault .untypedExpression

/-- Loads through the managed reference on the stack. -/
def pushIndirect (type : ClosedType) : Block :=
  match type.primitive? with
  | some p => .op (loadIndirect p)
  | none => if type.isValueType then .onMember .ldobj type.display else .op .ldindRef

/-- Stores the value on the stack through the reference below it. -/
def popIndirect (type : ClosedType) : Block :=
  match type.primitive? with
  | some p =>
    match storeIndirect? p with
    | some op => .op op
    | none => .fault (.unknownMnemonic (storeIndirectMnemonic p))
  | none => if type.isValueType then .onMember .stobj type.display else .op .stindRef

/-- Calls an accessor of an array on the array, its indices and what follows them. -/
def callElement (type : ClosedType) (rank : Nat) (access : ElementAccess) : Block :=
  if rank + 1 + access.further ≥ UInt16.size then .fault (.rankOutOfRange rank)
  else .call .call (.element type rank access)

/-- Loads the element of the array and the indices on the stack. -/
def pushElement (element : ClosedType) (rank : Nat) : Block :=
  if rank = 1 then
    match element.primitive? with
    | some p => .op (loadElement p)
    | none => if element.isValueType then .onMember .ldelem element.display else .op .ldelemRef
  else callElement element rank .get

/-- Pushes the address of the element of the array and the indices on the stack. -/
def pushElementAddress (element : ClosedType) (rank : Nat) : Block :=
  if rank = 1 then .onMember .ldelema element.display else callElement element rank .address

/-- Stores the value on the stack into the element of the array and the indices below it. -/
def popElement (element : ClosedType) (rank : Nat) : Block :=
  if rank = 1 then
    match element.primitive? with
    | some p => .op (storeElement p)
    | none => if element.isValueType then .onMember .stelem element.display else .op .stelemRef
  else callElement element rank .set

def pushConstant : Constant → Block
  | .bool value => .form (.int32 (if value then 1 else 0))
  | .int32 value => .form (.int32 value)
  | .int64 value => .form (.int64 value)
  | .string value => .plain .ldstr (.string value)

/-- Pushes the argument of an accessor. -/
def pushArgument : Pseudo.Argument → Block
  | .none => .skip
  | .int32 value => .form (.int32 value)
  | .string value => .plain .ldstr (.string value)
  | .uint64 value => .form (.int64 value.toInt64)

/-- Calls the accessor of a pseudo-variable and leaves what it returns. -/
def callAccessor (o : Pseudo.Occurrence) : Block :=
  pushArgument o.call.argument ++ .call .call (.accessor o.call)

/-- Narrows what the accessor of a pseudo-variable returned. -/
def narrowPseudo (o : Pseudo.Occurrence) : Block :=
  if o.hasStorage then pushIndirect o.type
  else if o.needsUnboxing then
    .onMember (if o.type.isValueType then .unboxAny else .castclass) o.type.display
  else .skip

/-- Converts the value on the stack. -/
def convertTop (kind : Conversion) (source : Option ClosedType) (target : ClosedType) : Block :=
  match kind with
  | .nullLiteral | .implicitReference => .skip
  | .boxing =>
    match source with
    | some type => .onMember .box type.display
    | none => .fault .untypedBox
  | .unboxing => .onMember .unboxAny target.display
  | .explicitReference => .onMember .castclass target.display
  | .numeric p =>
    match source.bind ClosedType.primitive? with
    | none => .fault .nonNumericSource
    | some q =>
      match convertNumeric? q p with
      | some op => .op op
      | none => .skip

/-- Moves the value to a new temporary and pushes the address of that. -/
def spill (t : Term) (value : Block) : Block :=
  withType t fun type => value ++ .spill type

/-- Pushes a receiver: a value type by its address where it has one or the use asks for one. -/
def pushReceiver (t : Term) (l : Lowering) (needsAddress : Bool) : Block :=
  if t.type?.any ClosedType.isValueType && (needsAddress || t.isAddressable) then l.address
  else l.value

/-- The call of a member of a receiver. Members of value types are not virtual. -/
def callOpcode (receiver : Option Term) : Opcode :=
  match receiver with
  | none => .call
  | some t => if t.type?.any ClosedType.isValueType then .call else .callvirt

def isUnsignedType (type : ClosedType) : Bool :=
  type.primitive?.any (·.isUnsigned)

/-- A copy of the value on the stack if it is used. -/
def copyIf (used : Bool) : Block :=
  if used then .op .dup else .skip

/-- Runs the code that consumes the value on the stack, and pushes a copy of it if it is used. -/
def keepIf (used : Bool) (type : ClosedType) (code : Block) : Block :=
  if used then .keeping type code else code

/-- Assigns a value and keeps a copy of it if it is used. -/
def assignTo (type : ClosedType) (target : Lowering) (value : Block) (used : Bool) : Block :=
  target.beforeStore ++ value ++
    if target.storesDirectly then copyIf used ++ target.store else keepIf used type target.store

/-- Applies an operator to a variable and keeps a copy of the result if it is used. Unless the store
is direct it goes through the address of the variable. -/
def compoundTo (op : BinaryOp) (type : ClosedType) (target : Lowering) (value : Block)
    (used : Bool) : Block :=
  let operator := Block.op (arithmetic op (isUnsignedType type))
  if target.storesDirectly then
    target.value ++ value ++ operator ++ copyIf used ++ target.store
  else
    target.address ++ .op .dup ++ pushIndirect type ++ value ++ operator ++
      keepIf used type (popIndirect type)

/-- A term that has a value and no storage to write. -/
def Lowering.readOnly (t : Term) (value : Block) : Lowering where
  value := value
  address := spill t value
  beforeStore := .fault .notStorable
  store := .fault .notStorable
  storesDirectly := false

mutual

def lower : Term → Lowering
  | .null => .readOnly .null (.op .ldnull)
  | .constant value type => .readOnly (.constant value type) (pushConstant value)
  | .localVar index _ =>
    { value := .form (.loadLocal index)
      address := .form (.loadLocalAddress index)
      beforeStore := .skip
      store := .form (.storeLocal index)
      storesDirectly := true }
  | .parameter index false _ =>
    { value := .form (.loadArgument index)
      address := .form (.loadArgumentAddress index)
      beforeStore := .skip
      store := .form (.storeArgument index)
      storesDirectly := true }
  | .parameter index true type =>
    { value := .form (.loadArgument index) ++ pushIndirect type
      address := .form (.loadArgument index)
      beforeStore := .form (.loadArgument index)
      store := popIndirect type
      storesDirectly := false }
  | .this type =>
    .readOnly (.this type) <|
      .form (.loadArgument 0) ++
        if type.isValueType then .onMember .ldobj type.display else .skip
  | .pseudo o =>
    if o.hasStorage then
      { value := callAccessor o ++ narrowPseudo o
        address := callAccessor o
        beforeStore := callAccessor o
        store := popIndirect o.type
        storesDirectly := false }
    else .readOnly (.pseudo o) (callAccessor o ++ narrowPseudo o)
  | .field none f =>
    { value := .onMember .ldsfld f.displayField
      address := .onMember .ldsflda f.displayField
      beforeStore := .skip
      store := .onMember .stsfld f.displayField
      storesDirectly := false }
  | .field (some receiver) f =>
    let l := lower receiver
    let value := pushReceiver receiver l false ++ .onMember .ldfld f.displayField
    { value
      address :=
        if receiver.type?.any ClosedType.isReferenceType || receiver.isAddressable then
          pushReceiver receiver l true ++ .onMember .ldflda f.displayField
        else spill (.field (some receiver) f) value
      beforeStore := pushReceiver receiver l true
      store := .onMember .stfld f.displayField
      storesDirectly := false }
  | .property none p => .readOnly (.property none p) (.call .call (.getter p false))
  | .property (some receiver) p =>
    .readOnly (.property (some receiver) p) <|
      pushReceiver receiver (lower receiver) true ++
        .call (callOpcode (some receiver)) (.getter p true)
  | .call none m args =>
    .readOnly (.call none m args) (pushArguments args ++ .call .call (.method m))
  | .call (some receiver) m args =>
    .readOnly (.call (some receiver) m args) <|
      pushReceiver receiver (lower receiver) true ++ pushArguments args ++
        .call (callOpcode (some receiver)) (.method m)
  | .element array indices type =>
    let operands := (lower array).value ++ pushAll indices
    { value := operands ++ pushElement type indices.length
      address := operands ++ pushElementAddress type indices.length
      beforeStore := operands
      store := popElement type indices.length
      storesDirectly := false }
  | .conversion kind operand type =>
    .readOnly (.conversion kind operand type) <|
      (lower operand).value ++ convertTop kind operand.type? type
  | .negate operand => .readOnly (.negate operand) ((lower operand).value ++ .op .neg)
  | .binary op left right type =>
    .readOnly (.binary op left right type) <|
      (lower left).value ++ (lower right).value ++ .op (arithmetic op (isUnsignedType type))
  | .coalesce left right type =>
    .readOnly (.coalesce left right type) (.orElse (lower left).value (lower right).value)
  | .assign target value type =>
    .readOnly (.assign target value type) <|
      withType target fun type => assignTo type (lower target) (lower value).value true
  | .compound op target value type =>
    .readOnly (.compound op target value type) <|
      withType target fun type => compoundTo op type (lower target) (lower value).value true

/-- Pushes values in order. -/
def pushAll : List Term → Block
  | [] => .skip
  | t :: rest => (lower t).value ++ pushAll rest

/-- Pushes the arguments of a call in order, each by its address or its value. -/
def pushArguments : List (Bool × Term) → Block
  | [] => .skip
  | (byRef, t) :: rest =>
    (if byRef then (lower t).address else (lower t).value) ++ pushArguments rest

end

/-- A variable with storage is read and written through the address that its accessor returns. -/
theorem lower_stored {o : Pseudo.Occurrence} (storage : o.hasStorage = true) :
    lower (.pseudo o) = ⟨callAccessor o ++ narrowPseudo o, callAccessor o, callAccessor o,
      popIndirect o.type, false⟩ := by
  simp [lower, storage]

/-- Evaluates a term and drops its value. An assignment keeps no copy in the first place. -/
def discard : Term → Block
  | .assign target value _ =>
    withType target fun type => assignTo type (lower target) (lower value).value false
  | .compound op target value _ =>
    withType target fun type => compoundTo op type (lower target) (lower value).value false
  | t => (lower t).value ++ if t.hasValue then .op .pop else .skip

/-- Encodes the code and a return behind it on an encoder with the given locals, and lays the method
out. -/
def assemble (locals : List ClosedType) (code : Block) (hasValue : Bool)
    (returnType : Option ClosedType) : Except Fault MethodBody :=
  let encoding := do
    code.encode
    Encode.ret hasValue
  match encoding.run (.ofLocals locals) with
  | (.ok (), e) => e.finish returnType
  | (.error fault, _) => .error fault

/-- Compiles a term into a method that returns its value. -/
def expressionMethod (locals : List ClosedType) (t : Term) : Except Fault MethodBody :=
  assemble locals (lower t).value t.hasValue t.type?

/-- Compiles a term into a method that returns nothing. -/
def statementMethod (locals : List ClosedType) (t : Term) : Except Fault MethodBody :=
  assemble locals (discard t) false none

end DebugExpr.Code
