import CodeCub.Machine.Run
import CodeCub.Python.Str
import CodeCub.Python.Path
import CodeCub.Python.Find
import CodeCub.Python.OrderedDict
import CodeCub.Python.DateTime
import CodeCub.Python.Json
import CodeCub.Python.JsonText
import CodeCub.Python.JsonAscii
import CodeCub.Python.JsonEq
import CodeCub.Python.Utf8
import CodeCub.Python.Lines
import CodeCub.Python.Newlines
import CodeCub.Python.CodePoint
import CodeCub.Python.Occurrences
import CodeCub.Python.LineFiles
import CodeCub.Tooling.PatchFile
import CodeCub.Tooling.Contracts
import CodeCub.Tooling.Circuit
import CodeCub.Runs.RunStore
import CodeCub.Runs.Workers
import CodeCub.Tooling.Executor
import CodeCub.Tooling.AtMostOnce
import CodeCub.Tooling.Probe
import CodeCub.Runs.Resume
import CodeCub.Runs.RunQueue
import CodeCub.Runs.Deliveries
import CodeCub.Runs.Controls
import CodeCub.Spine.Lane
import CodeCub.Spine.LaneSafety
import CodeCub.Spine.Injection
import CodeCub.Spine.Delivery
import CodeCub.Spine.Interaction
import CodeCub.Guard.Spans
import CodeCub.Guard.ReadGuard
import CodeCub.Guard.ReadSoundness
import CodeCub.Native.Messages
import CodeCub.Native.Compiler
import CodeCub.Native.Accounting
import CodeCub.Native.Assembler
import CodeCub.Native.UserTask
import CodeCub.Native.Continuity
import CodeCub.Native.Loop
import CodeCub.Native.Batches
import CodeCub.Native.Pairing
import CodeCub.Native.Pacing
import CodeCub.Native.ToolRuns
import CodeCub.Agent.Parser
import CodeCub.Agent.DeltaFilter
import CodeCub.Agent.XmlCalls
import CodeCub.Agent.TaskPolicy
import CodeCub.Agent.Watchdog
import CodeCub.Agent.Recovery
import CodeCub.Agent.Planning
import CodeCub.Agent.Verification
import CodeCub.Automation.Schedules
import CodeCub.Automation.Jobs
import CodeCub.Automation.Scheduler
import CodeCub.Automation.Ticks
import CodeCub.Automation.Sections
import CodeCub.Automation.Restart
import CodeCub.Pico.Lane
import CodeCub.Pico.Places
import CodeCub.Pico.Scheduler
import CodeCub.Pico.Shutdown
import CodeCub.Pico.Order
import CodeCub.Pico.Delivery
import CodeCub.Pico.Outlets
import CodeCub.Pico.Waiting
import CodeCub.Pico.Streams
import CodeCub.Pico.StreamCalls
import CodeCub.Sessions.Storage
import CodeCub.Sessions.Manager
import CodeCub.Sessions.Files
import CodeCub.Sessions.Writes
import CodeCub.Sessions.Snapshots
import CodeCub.Sessions.RoundTrip
import CodeCub.Sessions.Room
import CodeCub.Sessions.Ledger
import CodeCub.Sessions.Concurrent
import CodeCub.Sessions.Torn
import CodeCub.Sessions.Crash
import CodeCub.Evolver.Scoring
import CodeCub.Evolver.Reruns
import CodeCub.Evolver.Gates
import CodeCub.Evolver.Promotion
import CodeCub.Evolver.Nodes
import CodeCub.Evolver.Archive
import CodeCub.Evolver.Lineage
import CodeCub.Evolver.Round
import CodeCub.Evolver.Loop
import CodeCub.Evolver.Champion
import CodeCub.Evolver.Resumption
import CodeCub.Evolver.Journal
import CodeCub.Evolver.PathGuard
import CodeCub.Evolver.Tree
import CodeCub.Evolver.Children
import CodeCub.Index.Vectors
import CodeCub.Python.JsonSort
import CodeCub.Memory.Storage
import CodeCub.Agent.Instructions
import CodeCub.Agent.Contradictions
import CodeCub.Agent.RepeatGuard
import CodeCub.Models.EventStream
import CodeCub.Models.Gateway
import CodeCub.Models.Attempts
import CodeCub.Guard.Coverage
import CodeCub.Tooling.Committed
import CodeCub.Agent.Progress
import CodeCub.Agent.Endless
import CodeCub.Machine.Saturation
import CodeCub.Context.LegacyBudget
import CodeCub.Context.ToolExchanges
import CodeCub.Context.HistoryTrimmer
import CodeCub.Native.Trimming
import CodeCub.Native.Enforcing
import CodeCub.Native.Preambles
import CodeCub.Agent.Redaction
import CodeCub.Agent.Checkpoints
import CodeCub.Python.StableSort
import CodeCub.Memory.Bounds
import CodeCub.Memory.Stores
import CodeCub.Python.Regex
import CodeCub.Memory.Extraction
import CodeCub.Memory.Consolidation
import CodeCub.Memory.Retrieval
import CodeCub.Index.Rerank
import CodeCub.Sessions.History
import CodeCub.Machine.Forest
import CodeCub.Evolver.TreeView
import CodeCub.Python.Calendar
import CodeCub.Automation.Crontab
import CodeCub.Cron.Store
import CodeCub.Cron.Jobs
import CodeCub.Cron.Runs
import CodeCub.Layered.DurableTopics
import CodeCub.Layered.Promotion
import CodeCub.Layered.Clip
import CodeCub.Layered.State
import CodeCub.Layered.Normalised
import CodeCub.Layered.Notes
import CodeCub.Python.TrimmedSet
import CodeCub.Agent.EditDecision
import CodeCub.Agent.ArgumentSchema
import CodeCub.Agent.TextRecovery
import CodeCub.Prompt.TokenBudget
import CodeCub.Prompt.Reduction
import CodeCub.Prompt.Sections
import CodeCub.Prompt.Build
import CodeCub.Machine.Exchanges
import CodeCub.Turns.Round
import CodeCub.Turns.Loop
import CodeCub.Turns.Transcript
