import DebugExpr.Compile
import DebugExpr.Metadata.CoreLibrary
import DebugExpr.Proofs.ArithmeticWidths
import DebugExpr.Proofs.AssignmentTargets
import DebugExpr.Proofs.AssignmentTexts
import DebugExpr.Proofs.BoundActions
import DebugExpr.Proofs.CallOrder
import DebugExpr.Proofs.CoherentConversions
import DebugExpr.Proofs.CompiledVariables
import DebugExpr.Proofs.CompoundValues
import DebugExpr.Proofs.ConstantValues
import DebugExpr.Proofs.ConsumedValues
import DebugExpr.Proofs.DeadCode
import DebugExpr.Proofs.DeclaredReferences
import DebugExpr.Proofs.DepthCounter
import DebugExpr.Proofs.Encodable
import DebugExpr.Proofs.EntryKeys
import DebugExpr.Proofs.EscapedNames
import DebugExpr.Proofs.ExprHeights
import DebugExpr.Proofs.ExprReading
import DebugExpr.Proofs.InferredArguments
import DebugExpr.Proofs.InspectedNames
import DebugExpr.Proofs.JoinDepths
import DebugExpr.Proofs.LocatedErrors
import DebugExpr.Proofs.MemberSearch
import DebugExpr.Proofs.MethodBytes
import DebugExpr.Proofs.MissingAssemblies
import DebugExpr.Proofs.ModuleIndices
import DebugExpr.Proofs.NestingLimits
import DebugExpr.Proofs.NumericConversions
import DebugExpr.Proofs.PreferredModules
import DebugExpr.Proofs.ResolutionOutcomes
import DebugExpr.Proofs.ResolvedNames
import DebugExpr.Proofs.SignatureNames
import DebugExpr.Proofs.StatedComponents
import DebugExpr.Proofs.ThisPaths
import DebugExpr.Proofs.TokenSlices
import DebugExpr.Proofs.TypeDisplays
import DebugExpr.Proofs.TypeNames
import DebugExpr.Proofs.TypePaths
import DebugExpr.Proofs.Underflow
import DebugExpr.Proofs.WellFormedTypes
