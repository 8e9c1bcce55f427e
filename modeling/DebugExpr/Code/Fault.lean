import DebugExpr.Code.Operand

/-! Faults: a rule that the parts of the compiler keep among themselves does not hold. Most are
raised by the instruction encoder when it is asked for something that no method body can hold. -/
namespace DebugExpr.Code

inductive Fault where
  | typeParameterOutOfRange (index : Nat)
  | methodParameterOutOfRange (index : Nat)
  | untypedTarget
  | unknownMnemonic (mnemonic : String)
  | effectNotFixed (op : Opcode)
  | emittedBranch (op : Opcode)
  | operandMisfit (operand : Operand) (op : Opcode)
  | notCall (op : Opcode)
  | notLongBranch (op : Opcode)
  | tooManyArguments (count : Nat)
  | tooManyResults (count : Nat)
  | tooManyLocals (count : Nat)
  | unknownLabel (label : Label)
  | duplicateLabel (label : Label)
  | undefinedLabel (label : Label)
  | stackUnderflow (depth : Int) (pops pushes : Nat)
  | stackTooDeep
  | stackNotEmpty (depth : Int)
  /-- Control falls through to a label with another depth than a branch to it had. -/
  | labelDepthMismatch (label : Label) (expected found : Int)
  /-- Two branches to a label have different depths. -/
  | branchDepthMismatch (label : Label) (expected found : Int)
  | rankOutOfRange (rank : Nat)
  | untypedBox
  | nonNumericSource
  | untypedExpression
  | notStorable
  deriving DecidableEq

def Fault.message : Fault → String
  | .typeParameterOutOfRange index => s!"type parameter !{index} out of range"
  | .methodParameterOutOfRange index => s!"method type parameter !!{index} out of range"
  | .untypedTarget => "Assignable expression without a type"
  | .unknownMnemonic mnemonic => s!"Unknown instruction mnemonic: {mnemonic}"
  | .effectNotFixed op => s!"'{op.mnemonic}' needs an explicit stack effect"
  | .emittedBranch op => s!"'{op.mnemonic}' must be emitted as a branch"
  | .operandMisfit operand op => s!"Operand {operand.describe} does not fit '{op.mnemonic}'"
  | .notCall op => s!"'{op.mnemonic}' is not a call instruction"
  | .notLongBranch op => s!"'{op.mnemonic}' is not a long-form branch"
  | .tooManyArguments count => s!"Too many arguments: {count}"
  | .tooManyResults count => s!"Too many results: {count}"
  | .tooManyLocals count => s!"Too many locals: {count}"
  | .unknownLabel label => s!"Unknown label: {label.display}"
  | .duplicateLabel label => s!"Duplicate label: {label.display}"
  | .undefinedLabel label => s!"Undefined label: {label.display}"
  | .stackUnderflow depth pops pushes =>
    s!"Stack underflow: depth became {depth} after instruction with {pops} pops, {pushes} pushes"
  | .stackTooDeep => "Stack depth exceeds u16 range"
  | .stackNotEmpty depth => s!"Stack not empty at return: depth {depth}"
  | .labelDepthMismatch label expected found =>
    s!"Stack depth mismatch at {label.display}: expected {expected}, found {found}"
  | .branchDepthMismatch label expected found =>
    s!"Stack depth mismatch for branch to {label.display}: expected {expected}, found {found}"
  | .rankOutOfRange rank => s!"Array rank out of range: {rank}"
  | .untypedBox => "Boxing without a source type"
  | .nonNumericSource => "Numeric conversion from a non-numeric type"
  | .untypedExpression => "Expression has no type"
  | .notStorable => "Cannot store to"

end DebugExpr.Code
