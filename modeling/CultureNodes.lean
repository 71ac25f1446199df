import CultureNodes.Library.Worklist
import CultureNodes.Library.Cycles
import CultureNodes.Library.SplitGraph
import CultureNodes.Library.Transition
import CultureNodes.Library.Table
import CultureNodes.Library.Transaction
import CultureNodes.Library.Fallible
import CultureNodes.Library.Forest
import CultureNodes.Library.Nest
import CultureNodes.Library.Confined
import CultureNodes.Library.Streams
import CultureNodes.Compiler.Document
import CultureNodes.Compiler.Parallel
import CultureNodes.Compiler.SplitDepth
import CultureNodes.Store.WorkItem
import CultureNodes.Store.Lifecycle
import CultureNodes.Store.Fencing
import CultureNodes.Trigger.Delivery
import CultureNodes.Trigger.Shape
import CultureNodes.Trigger.Held
import CultureNodes.Trigger.Ceiling
import CultureNodes.Trigger.Order
import CultureNodes.Trigger.Drain
import CultureNodes.Trigger.Republish
import CultureNodes.Engine.Workflow
import CultureNodes.Engine.Plan
import CultureNodes.Engine.Rows
import CultureNodes.Engine.Parallel
import CultureNodes.Engine.Complete
import CultureNodes.Engine.Backoff
import CultureNodes.Engine.HumanDecision
import CultureNodes.Engine.EventRoute
import CultureNodes.Engine.System
import CultureNodes.Engine.Turn
import CultureNodes.Engine.Keyed
import CultureNodes.Engine.Paired
import CultureNodes.Engine.Linked
import CultureNodes.Engine.Journal
import CultureNodes.Engine.FanOut
import CultureNodes.Engine.Refine
import CultureNodes.Engine.Ownership
import CultureNodes.Engine.Count
import CultureNodes.Engine.Counted
import CultureNodes.Engine.Firing
import CultureNodes.Engine.Bounds
import CultureNodes.Engine.Progress
import CultureNodes.Engine.Depth
import CultureNodes.Engine.Ending
import CultureNodes.Engine.Overcharge
import CultureNodes.Actors.Callback
import CultureNodes.Actors.Inbound
import CultureNodes.Actors.Sequence
import CultureNodes.Actors.Redelivery
import CultureNodes.Engine.Attempts
import CultureNodes.Engine.Retry
import CultureNodes.Engine.Supersession
import CultureNodes.Engine.TicketFreeze
import CultureNodes.Engine.DecisionRoute
import CultureNodes.Engine.DecisionParity
import CultureNodes.Engine.Audit
import CultureNodes.Engine.Newest
import CultureNodes.Library.Float64
import CultureNodes.Engine.HumanTasks
import CultureNodes.Engine.Accepted
import CultureNodes.Handover.Gate
import CultureNodes.Handover.Merge
import CultureNodes.Engine.TriggerEvent
import CultureNodes.Engine.QueueDrain
import CultureNodes.Engine.SignalDelivery
import CultureNodes.Engine.Independence
import CultureNodes.Events.Append
import CultureNodes.Library.WaitFor
import CultureNodes.Events.Deadlock
import CultureNodes.Events.Locked
import CultureNodes.Scheduler.Deadline
import CultureNodes.Scheduler.Armed
import CultureNodes.Library.Duration
import CultureNodes.Scheduler.Schedule
import CultureNodes.Scheduler.Cadence
import CultureNodes.Library.Streak
import CultureNodes.Scheduler.Streak
import CultureNodes.Engine.Watermark
import CultureNodes.Engine.Remint
import CultureNodes.Worker.Liveness
import CultureNodes.Library.Program
import CultureNodes.Worker.Dispatch
import CultureNodes.Worker.Execute
import CultureNodes.Worker.Calls
import CultureNodes.Worker.Preflight
import CultureNodes.Worker.Runs
import CultureNodes.Worker.Sessions
import CultureNodes.Library.Tickets
import CultureNodes.Worker.Attempts
import CultureNodes.Repair.Route
import CultureNodes.Repair.Guard
import CultureNodes.Repair.Post
import CultureNodes.Repair.Bound
import CultureNodes.Signal.WakeUp
import CultureNodes.Signal.Replay
import CultureNodes.Library.Base64
import CultureNodes.Actors.Custody
import CultureNodes.Actors.Token
import CultureNodes.Library.Json
import CultureNodes.Compiler.Contract
import CultureNodes.Compiler.Graph
import CultureNodes.Compiler.Compile
import CultureNodes.Worker.Decision
import CultureNodes.Bindings.Resolve
import CultureNodes.Bindings.Pointers
import CultureNodes.Bindings.Traverse
import CultureNodes.Ledger.Supersede
import CultureNodes.Ledger.Projection
import CultureNodes.Ledger.Promotion
import CultureNodes.Store.Ulid
import CultureNodes.Store.UlidBytes
import CultureNodes.Devague.Waves
import CultureNodes.Web.Graph
import CultureNodes.Library.StableSort
import CultureNodes.Web.RunState
import CultureNodes.Web.Snapshot
import CultureNodes.Web.Denial
import CultureNodes.Web.Announce
import CultureNodes.Web.Transit
import CultureNodes.Web.Carried
import CultureNodes.Web.Overlay
import CultureNodes.Web.History
import CultureNodes.Ledger.Recency
import CultureNodes.Ledger.Project
import CultureNodes.Library.Paths
import CultureNodes.Ledger.Coverage
import CultureNodes.Library.JsonGrammar
import CultureNodes.Library.JsonText
import CultureNodes.Library.Radix
import CultureNodes.Library.Layers
import CultureNodes.Library.Breadth
import CultureNodes.Contracts.Canonical
import CultureNodes.Pacing.Window
import CultureNodes.Pacing.Decide
import CultureNodes.Library.Keyed
import CultureNodes.Library.Feed
import CultureNodes.Library.Outbox
import CultureNodes.Events.Relay
import CultureNodes.Events.Stream
import CultureNodes.Notifier.Daemon
import CultureNodes.Notifier.Frames
import CultureNodes.Reports.Lane
import CultureNodes.Reports.Ticket
import CultureNodes.Reports.Drain
import CultureNodes.Runners.Status
import CultureNodes.Runners.Service
import CultureNodes.Runners.Owners
import CultureNodes.Runners.Steps
import CultureNodes.Runners.Once
import CultureNodes.Runners.Cancel
import CultureNodes.Runners.Retention
import CultureNodes.Worker.Sampling
import CultureNodes.Worker.Sampled
