import OpenFoamAgent.Library.Runs
import OpenFoamAgent.Workspace.Assets
import OpenFoamAgent.Contracts.TimeStepCeiling
import OpenFoamAgent.Contracts.AbandonedRepairs
import OpenFoamAgent.Verification.CaseAssertions
import OpenFoamAgent.Engineering.RuntimePolicy
import OpenFoamAgent.Engineering.EventTruth
import OpenFoamAgent.Engineering.DeltaAtomicity
import OpenFoamAgent.Schemas.ConflictRecords
import OpenFoamAgent.Schemas.CasePlan
import OpenFoamAgent.Engineering.AuthoringTasks
import OpenFoamAgent.Engineering.CandidateRepair
import OpenFoamAgent.Runtime.StreamEvidence
import OpenFoamAgent.Engineering.DeltaOutcomes
import OpenFoamAgent.Engineering.CaseBuildGraph
import OpenFoamAgent.Engineering.DeltaPipelines
import OpenFoamAgent.Workspace.SealVerification
import OpenFoamAgent.Workspace.Rollback
import OpenFoamAgent.Postprocessing.Report
import OpenFoamAgent.Runtime.LedgerRuns
import OpenFoamAgent.Runtime.ConsumptionRuns
import OpenFoamAgent.Runtime.LaunchVectors
import OpenFoamAgent.Verification.CommentRemoval
import OpenFoamAgent.Agents.IntakeProvenance
import OpenFoamAgent.Engineering.FailureRouting
import OpenFoamAgent.Workflow.CheckpointStore
import OpenFoamAgent.Workflow.CheckpointRoundTrip
import OpenFoamAgent.Workflow.RefusedLoads
import OpenFoamAgent.Runtime.RestartInterruption
import OpenFoamAgent.Engineering.RepairOutcomes
import OpenFoamAgent.Engineering.DependencyOrder
import OpenFoamAgent.Verification.DictionarySections
import OpenFoamAgent.Engineering.ExactPatches
import OpenFoamAgent.Engineering.CandidateOverride
import OpenFoamAgent.Engineering.AuthoringAssembly
import OpenFoamAgent.Engineering.ConsumerClosure
import OpenFoamAgent.Engineering.ReusedScopes
import OpenFoamAgent.Engineering.NativeHints
import OpenFoamAgent.Workspace.SealAdoption
import OpenFoamAgent.Workspace.RefusedWrites
import OpenFoamAgent.Workspace.RevisionArchive
import OpenFoamAgent.Workspace.AssetImports
import OpenFoamAgent.Workspace.AssetRecovery
import OpenFoamAgent.Engineering.RevisionEvidence
import OpenFoamAgent.Engineering.RevisionMutation
import OpenFoamAgent.Verification.TopologyContract
import OpenFoamAgent.Verification.BoundaryPrecedence
import OpenFoamAgent.Engineering.PartitionCoverage
import OpenFoamAgent.Engineering.PartitionedContexts
import OpenFoamAgent.Runtime.ResidualAcceptance
import OpenFoamAgent.Verification.ReaderAgreement
import OpenFoamAgent.Verification.CommentStripping
import OpenFoamAgent.Verification.MeshEvidence
import OpenFoamAgent.Tools.FoamSerializer
import OpenFoamAgent.Tools.References
import OpenFoamAgent.Postprocessing.SeriesWindows
import OpenFoamAgent.Postprocessing.ZeroCrossings
import OpenFoamAgent.Postprocessing.PathRedaction
import OpenFoamAgent.Postprocessing.MeshClosure
import OpenFoamAgent.Postprocessing.DictionaryGrammar
import OpenFoamAgent.Contracts.SyntaxEvidence
import OpenFoamAgent.Contracts.MaskedTurns
import OpenFoamAgent.Contracts.CanonicalPayloads
import OpenFoamAgent.Llm.BoundedPrompts
import OpenFoamAgent.Llm.CodexTransport
import OpenFoamAgent.Llm.TransportProperties
import OpenFoamAgent.Engineering.MeshHistory
import OpenFoamAgent.Engineering.EvidenceGaps
import OpenFoamAgent.Engineering.SupportRequests
import OpenFoamAgent.Runtime.AuthorizedStarts
import OpenFoamAgent.Runtime.OrchestratedRuns
import OpenFoamAgent.Tools.LocalIncludes
import OpenFoamAgent.Review.ReviewRuns
import OpenFoamAgent.Postprocessing.AgentRuns
