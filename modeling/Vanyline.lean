import Vanyline.Lib.Run
import Vanyline.Lib.Gather
import Vanyline.Lib.Program
import Vanyline.Lib.Pool
import Vanyline.Lib.Pathname
import Vanyline.Lib.FileTree
import Vanyline.Lib.UrlPath
import Vanyline.Lib.JsonValue
import Vanyline.Lib.Promises
import Vanyline.Lib.Ranges
import Vanyline.Lib.RangeCounts
import Vanyline.Lib.RowFilling
import Vanyline.Lib.EditDistance
import Vanyline.Lib.Divisions
import Vanyline.Lib.TextLines
import Vanyline.Lib.ByteOffsets
import Vanyline.Lib.Splices
import Vanyline.Lib.SpliceOrder
import Vanyline.Lib.Segments
import Vanyline.Lib.SortedMap
import Vanyline.Lib.Effect
import Vanyline.Lib.DirTree
import Vanyline.Lib.Tally
import Vanyline.Lib.Counters
import Vanyline.Lib.Chunks
import Vanyline.Lib.Utf8
import Vanyline.Crds.Names
import Vanyline.Sandbox.Confine
import Vanyline.Sandbox.Documents
import Vanyline.Sandbox.DocumentSync
import Vanyline.Sandbox.Diagnostics
import Vanyline.Sandbox.EditAndCheck
import Vanyline.Sandbox.RuffLint
import Vanyline.Sandbox.Handshake
import Vanyline.Sandbox.Multiplexer
import Vanyline.Sandbox.Correlation
import Vanyline.Sandbox.CodeHealth
import Vanyline.Sandbox.LspManager
import Vanyline.App.GateSteps
import Vanyline.App.Owners
import Vanyline.App.GitRelay
import Vanyline.Controller.Namespace
import Vanyline.Controller.Readiness
import Vanyline.Controller.Api
import Vanyline.Controller.Reconcilers
import Vanyline.Controller.ObjectNames
import Vanyline.Controller.Finalizers
import Vanyline.Controller.NamespaceCache
import Vanyline.Controller.AppDelegation
import Vanyline.Controller.SandboxPod
import Vanyline.Controller.PodRules
import Vanyline.Controller.PodEnvironment
import Vanyline.Controller.EgressPolicy
import Vanyline.App.SandboxHosts
import Vanyline.App.Naming
import Vanyline.Cli.Transcript
import Vanyline.Cli.TranscriptLevels
import Vanyline.Cli.Tui
import Vanyline.Cli.TurnResults
import Vanyline.Cli.Todos
import Vanyline.Cli.Rpc
import Vanyline.Cli.RpcConversations
import Vanyline.Cli.RpcWire
import Vanyline.App.Chat
import Vanyline.App.ChatTurns
import Vanyline.Ui.ChatStream
import Vanyline.App.OwnerTokens
import Vanyline.Frontend.FsClient
import Vanyline.Protocol.Connection
import Vanyline.Frontend.RequestClients
import Vanyline.Frontend.EditorAutosave
import Vanyline.Frontend.FlushRequests
import Vanyline.Cfgstore.Layers
import Vanyline.Cfgstore.FsStore
import Vanyline.Cfgstore.Frame
import Vanyline.Cfgstore.TwoWriters
import Vanyline.Cfgstore.Formats
import Vanyline.Cfgstore.LayerFiles
import Vanyline.Cfgstore.Patches
import Vanyline.Cfgstore.Mutators
import Vanyline.Cfgstore.FailedWrites
import Vanyline.Cfgstore.RoundTrip
import Vanyline.Cfgstore.ToolsetFiles
import Vanyline.Cfgstore.MarkdownFiles
import Vanyline.Cfgstore.Store
import Vanyline.Session.TurnContext
import Vanyline.Session.StreamEvents
import Vanyline.Cli.ConfigCheck
import Vanyline.Cli.Graphemes
import Vanyline.Cli.Editor
import Vanyline.Cli.EditorCursor
import Vanyline.Cli.EditorRuns
import Vanyline.Cli.EditorTyping
import Vanyline.Cli.EditorView
import Vanyline.Sandbox.JobRegistry
import Vanyline.Sandbox.JobRetention
import Vanyline.Sandbox.JobRuns
import Vanyline.Sandbox.JobVerdicts
import Vanyline.Sandbox.HealthFreshness
import Vanyline.Health.Diff
import Vanyline.Health.NewCodeScope
import Vanyline.Health.Lcov
import Vanyline.Health.LcovReports
import Vanyline.Health.Restriction
import Vanyline.Health.AbsoluteSources
import Vanyline.Health.Scheduler
import Vanyline.Health.SchedulerRuns
import Vanyline.Health.Expansion
import Vanyline.Health.Globs
import Vanyline.Health.Prerequisites
import Vanyline.Health.Artifacts
import Vanyline.Health.ToolOutput
import Vanyline.Health.TscRecords
import Vanyline.Health.CappedOutput
import Vanyline.Sandbox.DiagnosticsDiff
import Vanyline.Sandbox.IncrementalSync
import Vanyline.Sandbox.RuffRanges
import Vanyline.Sandbox.Broadcast
import Vanyline.Sandbox.Framing
import Vanyline.Tools.AtomicWrite
import Vanyline.Sandbox.DiagnosticsRuns
import Vanyline.Tools.ReadFile
import Vanyline.Tools.HeadTail
import Vanyline.Tools.ClosestLine
import Vanyline.Tools.ListDirectory
import Vanyline.Sandbox.TextEdits
import Vanyline.Sandbox.TextEditMeaning
import Vanyline.Sandbox.TextEditPlaces
import Vanyline.Frontend.LspRename
import Vanyline.Frontend.DiffPatch
import Vanyline.Sandbox.BrowserUris
import Vanyline.Sandbox.CompletionProvenance
import Vanyline.Sandbox.Git
import Vanyline.Sandbox.GitLog
import Vanyline.Sandbox.GitStatus
import Vanyline.Sandbox.GitPush
import Vanyline.App.RhaiValues
import Vanyline.App.RhaiBridge
import Vanyline.Lib.JsonText
import Vanyline.App.AgentJson
import Vanyline.Cli.TuiInput
import Vanyline.Sandbox.WsTickets
import Vanyline.Tools.EditMatches
import Vanyline.Cli.MarkdownWrap
