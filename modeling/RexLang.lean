import RexLang.OperatorPrecedenceTree
import RexLang.Ast
import RexLang.Token
import RexLang.BinaryExprFold
import RexLang.BacktrackingRegex
import RexLang.QuotedLiterals
import RexLang.BoundNames
import RexLang.ImportRewriting
import RexLang.ImportValidation
import RexLang.ScopeCorrectness
import RexLang.MatchExhaustiveness
import RexLang.UnificationAgreement
import RexLang.ParallelismLimit
import RexLang.HostCallBookkeeping
import RexLang.HeapAllocation
import RexLang.GroupedTailApplication
import RexLang.EvaluatorMachine
import RexLang.GroundEntailment
import RexLang.JsonRoundTrip
import RexLang.PegCorrectness
import RexLang.BundleRoundTrip
import RexLang.JobOutputs
import RexLang.DirectoryRoundTrip
import RexLang.OverloadResolution
import RexLang.FilterGraphRoundTrip
import RexLang.DotRoundTrip
import RexLang.SubstitutionComposition
import RexLang.ChainSubstitution
import RexLang.NativeChecks
import RexLang.DefaultingRuns
import RexLang.LiteralDefaulting
import RexLang.FamilyOrdering
import RexLang.ListRanges
import RexLang.AliasRegistration
import RexLang.IntegerPrimitives
import RexLang.StringIndexing
import RexLang.ImportScopes
import RexLang.ModuleCycles
import RexLang.TokenSpans
import RexLang.AdtRedeclaration
import RexLang.MatchFrames
import RexLang.FormattedTokens
import RexLang.SchedulerStack
import RexLang.RootTokens
import RexLang.PathResolution
import RexLang.UnifierInvariants
import RexLang.CollectionTasks
import RexLang.ExportedTrees
