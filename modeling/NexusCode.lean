import NexusCode.Audit.Faults
import NexusCode.Circuit.SharedStore
import NexusCode.Circuit.ClockCorrection
import NexusCode.Recovery.Evidence
import NexusCode.Engine.StoredTurns
import NexusCode.Engine.FailedTurns
import NexusCode.Transfer.CapsuleRetry
import NexusCode.Billing.Spend
import NexusCode.Server.Runs
import NexusCode.Secrets.Chain
import NexusCode.Agent.Cancellation
import NexusCode.Sessions.ReplayOrder
import NexusCode.Patch.Reproduction
import NexusCode.Patch.Preservation
import NexusCode.Shared.ListCache
import NexusCode.Sql.WriteGate
import NexusCode.Rag.Converge
import NexusCode.Rag.Redaction
import NexusCode.FileIntel.Incremental
import NexusCode.Config.Trust
import NexusCode.Providers.CliStream
import NexusCode.Providers.ToolExchange
import NexusCode.Context.StablePrefix
import NexusCode.Agent.Delegation
import NexusCode.Agent.RunsApart
import NexusCode.Hooks.ToolVeto
import NexusCode.Jobs.Keepers
import NexusCode.Plugins.Host
import NexusCode.Auth.AuthCode
import NexusCode.Webhooks.Dispatcher
import NexusCode.Resilience.ExactContract
import NexusCode.Resilience.TerminalContent
import NexusCode.Engine.SwitchCut
import NexusCode.Router.Select
import NexusCode.Circuit.Tripping
import NexusCode.Engine.SwitchCandidates
import NexusCode.Router.StreamOrder
import NexusCode.Access.Patterns
import NexusCode.Access.Reachability
import NexusCode.Knowledge.Refold
import NexusCode.Knowledge.Orphans
import NexusCode.Knowledge.Lamport
import NexusCode.Knowledge.Blobs
import NexusCode.Terminal.Broadcast
import NexusCode.Terminal.Captured
import NexusCode.Terminal.ProcessManager
import NexusCode.Workspace.Glob
import NexusCode.Analytics.Window
import NexusCode.Cache.Disk
import NexusCode.Memory.Identity
import NexusCode.Rag.Coverage
import NexusCode.Context.Compress
import NexusCode.Mcp.Discovery
import NexusCode.Sdk.Emitter
import NexusCode.Lsp.RenameEdit
