import PaciNet.Storage.Memory
import PaciNet.Proof.Leadership
import PaciNet.Proof.DeploySound
import PaciNet.Proof.FsmInterleaving
import PaciNet.Proof.LateAgents
import PaciNet.Proof.DeployOutcome
import PaciNet.Proof.Rollouts
import PaciNet.Proof.Paths
import PaciNet.Proof.StandbyWrites
import PaciNet.Proof.NodeLifecycle
import PaciNet.Proof.Serializable
import PaciNet.Proof.RollbackTarget
import PaciNet.Proof.ConditionParsing
import PaciNet.Proof.InstanceVisits
import PaciNet.Proof.DroppedHandlers
import PaciNet.Proof.CachedNodes
import PaciNet.Proof.RollbackHistory
import PaciNet.Proof.BatchDeploys
import PaciNet.Proof.AllOrNothing
import PaciNet.Proof.VersionNumbers
import PaciNet.Proof.Retention
import PaciNet.Proof.Aggregates
import PaciNet.Proof.ReportedRates
import PaciNet.Proof.DeployAudit
import PaciNet.Proof.FailedCalls
import PaciNet.Proof.Sustained
import PaciNet.Proof.IndependentTimers
import PaciNet.Proof.TimersWait
import PaciNet.Proof.CapabilityGate
import PaciNet.Proof.ApiKeys
import PaciNet.Proof.EventHistory
import PaciNet.Proof.ActionsAsWritten
import PaciNet.Proof.CompletionEvents
import PaciNet.Proof.LatestOutcomes
import PaciNet.Proof.ActionResults
import PaciNet.Proof.DryRunPreview
import PaciNet.Proof.StoredDefinitions
import PaciNet.Proof.RepeatedDeploys
import PaciNet.Proof.LabelQueries
import PaciNet.Proof.LineDiffs
import PaciNet.Proof.CutTexts
import PaciNet.Proof.LabelFilters
import PaciNet.Proof.BatchSlices
import PaciNet.Proof.TimerKeys
import PaciNet.Proof.ContextLists
import PaciNet.Proof.SseChunks
import PaciNet.Web.Templates
import PaciNet.Proof.RuleBlocks
import PaciNet.Proof.RuleLayouts
import PaciNet.Proof.ComposedRules
import PaciNet.Proof.VersionRollbacks
import PaciNet.Lib.Twins
import PaciNet.Proof.TwinStates
import PaciNet.Proof.TwinNodes
import PaciNet.Proof.TwinRecords
import PaciNet.Proof.TwinBackends
import PaciNet.Proof.TwinControllers
import PaciNet.Lib.Owned
import PaciNet.Agent.Runner
import PaciNet.Agent.Service
import PaciNet.Proof.AgentStages
import PaciNet.Proof.AgentDeploys
import PaciNet.Proof.AgentFiles
import PaciNet.Lib.Broadcast
import PaciNet.Server.Events
import PaciNet.Server.Streams
import PaciNet.Proof.Listening
import PaciNet.Proof.Streams
import PaciNet.Lib.Segments
import PaciNet.Proof.CommandLines
import PaciNet.Proof.BatchCursors
import PaciNet.Proof.RolloutExits
