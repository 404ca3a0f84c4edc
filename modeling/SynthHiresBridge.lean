import SynthHiresBridge.Proof.SkipConsent
import SynthHiresBridge.Proof.Mutations
import SynthHiresBridge.Proof.Pairing
import SynthHiresBridge.Proof.Refusal
import SynthHiresBridge.Proof.Traversal
import SynthHiresBridge.Proof.Grants
import SynthHiresBridge.Daemon.Engines
import SynthHiresBridge.Proof.Scopes
import SynthHiresBridge.Data.Suffix
import SynthHiresBridge.Proof.Eviction
import SynthHiresBridge.Posix.Readback
import SynthHiresBridge.Proof.Archive
import SynthHiresBridge.Proof.Budget
import SynthHiresBridge.Proof.Undo
import SynthHiresBridge.Proof.Rollback
import SynthHiresBridge.Proof.Crash
import SynthHiresBridge.Daemon.WsLoop
import SynthHiresBridge.Proof.Watchdog
import SynthHiresBridge.Proof.Denial
import SynthHiresBridge.Proof.Preimage
import SynthHiresBridge.Proof.Detection
import SynthHiresBridge.Proof.Remembrance
import SynthHiresBridge.Proof.Resumption
import SynthHiresBridge.Data.Table
import SynthHiresBridge.Data.JsonText
import SynthHiresBridge.Daemon.ChatStore
import SynthHiresBridge.Proof.ChatSnapshot
import SynthHiresBridge.Daemon.ChatPush
import SynthHiresBridge.Proof.ChatPush
import SynthHiresBridge.Proof.LastWriter
import SynthHiresBridge.Daemon.MemoryStore
import SynthHiresBridge.Daemon.Notebook
import SynthHiresBridge.Proof.Memory
import SynthHiresBridge.Proof.MemoryRefinement
import SynthHiresBridge.Proof.MemoryRuns
import SynthHiresBridge.Daemon.Autoupdate
import SynthHiresBridge.Data.JsonSpelling
import SynthHiresBridge.Data.JsonParse
import SynthHiresBridge.Daemon.SignManifest
import SynthHiresBridge.Proof.Signing
import SynthHiresBridge.Data.JsonBytes
import SynthHiresBridge.Proof.Downgrade
import SynthHiresBridge.Daemon.AuditLog
import SynthHiresBridge.Proof.AuditLog
import SynthHiresBridge.Daemon.Redaction
import SynthHiresBridge.Proof.Redaction
import SynthHiresBridge.Daemon.JsonRpc
import SynthHiresBridge.Proof.PendingRequests
import SynthHiresBridge.Daemon.LspSession
import SynthHiresBridge.Proof.LspProtocol
import SynthHiresBridge.Proof.LspFreshness
import SynthHiresBridge.Daemon.TaskRegistry
import SynthHiresBridge.Proof.TaskStatus
import SynthHiresBridge.Daemon.ProcOps
import SynthHiresBridge.Proof.ProcessEnd
import SynthHiresBridge.Daemon.EvalRuntime
import SynthHiresBridge.Daemon.EvalSession
import SynthHiresBridge.Proof.ChildRecovery
import SynthHiresBridge.Proof.EvalBooks
import SynthHiresBridge.Proof.EvalConsole
import SynthHiresBridge.Daemon.LocalServer
import SynthHiresBridge.Proof.Nonces
import SynthHiresBridge.Proof.PairingPeriods
import SynthHiresBridge.Daemon.BrowserTabs
import SynthHiresBridge.Proof.TabRegistry
import SynthHiresBridge.Proof.TaskRetention
import SynthHiresBridge.Daemon.DeepLink
import SynthHiresBridge.Proof.DeepLink
import SynthHiresBridge.Daemon.OsAx
import SynthHiresBridge.Proof.RefResolution
import SynthHiresBridge.Daemon.ClientStart
import SynthHiresBridge.Data.Replace
import SynthHiresBridge.Proof.Endpoints
import SynthHiresBridge.Daemon.ShellRun
import SynthHiresBridge.Proof.ShellDrain
import SynthHiresBridge.Data.UrlHost
import SynthHiresBridge.Daemon.NetworkFetch
import SynthHiresBridge.Proof.MetadataHosts
import SynthHiresBridge.Daemon.BridgeFrame
import SynthHiresBridge.Android.Protocol
import SynthHiresBridge.Proof.SharedFrames
import SynthHiresBridge.Android.Consent
import SynthHiresBridge.Transition.Tickets
import SynthHiresBridge.Proof.ConsentBinding
import SynthHiresBridge.Ios.BridgeService
import SynthHiresBridge.Proof.ConsentKeeping
import SynthHiresBridge.Data.Splice
import SynthHiresBridge.Data.Lines
import SynthHiresBridge.Proof.PatchTogether
import SynthHiresBridge.Data.LossyLines
import SynthHiresBridge.Proof.PatchBytes
import SynthHiresBridge.Proof.Anchors
import SynthHiresBridge.Daemon.DiskFaults
import SynthHiresBridge.Proof.AtomicWriters
import SynthHiresBridge.Proof.WorkspacePlan
import SynthHiresBridge.Proof.LspPositions
import SynthHiresBridge.Proof.FileUris
import SynthHiresBridge.Data.CharBoundary
import SynthHiresBridge.Data.SpliceOrder
import SynthHiresBridge.Proof.WorkspaceEdits
import SynthHiresBridge.Proof.WorkspaceRuns
import SynthHiresBridge.Proof.WorkspaceRejects
import SynthHiresBridge.Daemon.Frames
import SynthHiresBridge.Proof.FrameStreams
import SynthHiresBridge.Daemon.ShellOutput
import SynthHiresBridge.Data.Clip
import SynthHiresBridge.Proof.PushCapped
import SynthHiresBridge.Proof.ShellStreams
import SynthHiresBridge.Daemon.PtyOps
import SynthHiresBridge.Proof.LogNumbers
import SynthHiresBridge.Proof.OutputBuffer
import SynthHiresBridge.Data.LineGroups
import SynthHiresBridge.Proof.TerminalDrains
import SynthHiresBridge.Daemon.DapOps
import SynthHiresBridge.Proof.SettledOutput
import SynthHiresBridge.Proof.DapStops
import SynthHiresBridge.Proof.EvalCapture
import SynthHiresBridge.Data.DecodeCuts
import SynthHiresBridge.Proof.ReadBoundaries
import SynthHiresBridge.Daemon.AstGrep
import SynthHiresBridge.Proof.MatchText
import SynthHiresBridge.Proof.DirectorySearch
import SynthHiresBridge.Data.WebUrl
import SynthHiresBridge.Proof.AstRebuild
import SynthHiresBridge.Proof.BackendOrigins
import SynthHiresBridge.Proof.LoopbackDials
import SynthHiresBridge.Proof.EndpointNormal
import SynthHiresBridge.Proof.FetchBodies
import SynthHiresBridge.Daemon.ProcessControl
import SynthHiresBridge.Proof.OwnProcess
import SynthHiresBridge.Proof.VersionOrder
import SynthHiresBridge.Proof.MemoryTags
import SynthHiresBridge.Daemon.ChatSearch
import SynthHiresBridge.Data.Newest
import SynthHiresBridge.Proof.LiteralSearch
import SynthHiresBridge.Daemon.Protocol
import SynthHiresBridge.Proof.PairingCodes
import SynthHiresBridge.Daemon.Base64
import SynthHiresBridge.Proof.Base64Exact
import SynthHiresBridge.Daemon.FoldedGate
import SynthHiresBridge.Proof.FoldedPrefix
import SynthHiresBridge.Data.StringLiteral
import SynthHiresBridge.Daemon.BrowserPage
import SynthHiresBridge.Data.Climb
import SynthHiresBridge.Proof.AxDepth
import SynthHiresBridge.Proof.ScriptLiterals
import SynthHiresBridge.Data.Numbered
import SynthHiresBridge.Proof.Snapshots
import SynthHiresBridge.Daemon.GitOps
import SynthHiresBridge.Proof.GitOutput
import SynthHiresBridge.Data.Pathspec
import SynthHiresBridge.Proof.GitPathspecs
import SynthHiresBridge.Proof.ShellBackstop
import SynthHiresBridge.Proof.DiskReports
import SynthHiresBridge.Data.DrainedRing
import SynthHiresBridge.Proof.PageLines
import SynthHiresBridge.Proof.Reconnect
