import MemoryArchive.Reasoning.Readers
import MemoryArchive.Ipc.ClaimIdentity
import MemoryArchive.Ipc.Isolation
import MemoryArchive.Ipc.Lifecycle
import MemoryArchive.Capture.DirectDone
import MemoryArchive.Capture.TokenTotals
import MemoryArchive.Ipc.LiveStatus
import MemoryArchive.Ipc.NoGhosts
import MemoryArchive.Model.Pipeline
import MemoryArchive.Model.Circuit
import MemoryArchive.Model.Degradation
import MemoryArchive.Ipc.Directories
import MemoryArchive.Ipc.Ownership
import MemoryArchive.Data.Interleaving
import MemoryArchive.Registry.Commands
import MemoryArchive.Ipc.Deletion
import MemoryArchive.Ipc.Handles
import MemoryArchive.Tui.Loader
import MemoryArchive.Tui.Annotation
import MemoryArchive.Tui.Reload
import MemoryArchive.Reasoning.Upserts
import MemoryArchive.Ipc.CloudReasoning
import MemoryArchive.Capture.KafkaPosition
import MemoryArchive.Capture.Recovery
import MemoryArchive.Ipc.Retention
import MemoryArchive.Tui.Commands
import MemoryArchive.Capture.Alignment
import MemoryArchive.Reasoning.Updates
import MemoryArchive.Reasoning.LateResults
import MemoryArchive.Data.TwoRuns
import MemoryArchive.Ipc.KeyRefs
import MemoryArchive.Ipc.ClaimSteps
import MemoryArchive.Ipc.ClaimCap
import MemoryArchive.Ipc.Startup
import MemoryArchive.Ipc.Waiting
import MemoryArchive.Ipc.Repair
import MemoryArchive.Model.Pricing
import MemoryArchive.Storage.SyncLog
import MemoryArchive.Storage.SyncWorker
import MemoryArchive.Storage.Shutdown
import MemoryArchive.Capture.Refinalise
import MemoryArchive.Capture.Handover
import MemoryArchive.Capture.Wire
import MemoryArchive.Capture.EventSources
import MemoryArchive.Capture.Closing
import MemoryArchive.Tui.Drafts
import MemoryArchive.Tui.Counters
import MemoryArchive.Ipc.Listing
import MemoryArchive.Ipc.Confinement
import MemoryArchive.Ipc.CounterMirror
import MemoryArchive.Ipc.Finished
import MemoryArchive.Ipc.PushQueue
import MemoryArchive.Model.Breaker
import MemoryArchive.Model.Alternation
import MemoryArchive.Model.Isolation
import MemoryArchive.Model.HalfOpen
import MemoryArchive.Data.Attempts
import MemoryArchive.Ipc.DegradedGauges
import MemoryArchive.Capture.Stream
import MemoryArchive.Capture.Downgrade
import MemoryArchive.Capture.AgentGate
import MemoryArchive.Registry.Hash
import MemoryArchive.Ipc.Purge
import MemoryArchive.Capture.Redelivery
import MemoryArchive.Capture.ResultEntries
import MemoryArchive.Ipc.Management
import MemoryArchive.Ipc.Pinning
import MemoryArchive.Storage.CloudCopy
import MemoryArchive.Storage.Completeness
import MemoryArchive.Storage.Fetch
import MemoryArchive.Configuration.App
import MemoryArchive.Configuration.Core
import MemoryArchive.Configuration.Mirror
import MemoryArchive.Configuration.Editing
import MemoryArchive.Capture.Replay
import MemoryArchive.Json.Numbers
import MemoryArchive.Json.Separators
import MemoryArchive.Storage.Lexical
import MemoryArchive.Ipc.Uploads
import MemoryArchive.Tui.Rows
import MemoryArchive.Capture.Versions
import MemoryArchive.Convert.Scanners
import MemoryArchive.Convert.Keyboard
import MemoryArchive.Convert.Drags
import MemoryArchive.Convert.Lengths
import MemoryArchive.Convert.Slices
import MemoryArchive.Convert.Infallible
import MemoryArchive.Convert.Modifiers
import MemoryArchive.Convert.Keys
import MemoryArchive.Model.Bedrock
import MemoryArchive.Model.Stability
import MemoryArchive.Tui.Advance
import MemoryArchive.Vision.Marker
import MemoryArchive.Ipc.Routes
import MemoryArchive.Ipc.DeleteAll
import MemoryArchive.Data.Walk
import MemoryArchive.Storage.LocalMap
import MemoryArchive.Data.Window
import MemoryArchive.Model.RateLimiter
import MemoryArchive.Text.Lossy
import MemoryArchive.Ipc.Framing
import MemoryArchive.Text.UrlPath
import MemoryArchive.Storage.Azure
import MemoryArchive.Capture.TokenMetrics
import MemoryArchive.Ipc.UploadLimits
import MemoryArchive.Storage.ImageCache
import MemoryArchive.Tui.Clipboard
import MemoryArchive.Tui.ImagePane
import MemoryArchive.Reasoning.Scaffold
import MemoryArchive.Text.Cut
import MemoryArchive.Updater.ShellRc
import MemoryArchive.Data.FileSystem
import MemoryArchive.Updater.Archive
import MemoryArchive.Data.Actions
import MemoryArchive.Updater.Install
import MemoryArchive.Ipc.Authentication
import MemoryArchive.Vision.Frames
import MemoryArchive.Capture.StepFrames
