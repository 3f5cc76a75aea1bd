import StreamTrigger.Broker
import StreamTrigger.Callback
import StreamTrigger.Commit.Strategy
import StreamTrigger.Commit.Tracker
import StreamTrigger.Configuration
import StreamTrigger.Consumer.Context
import StreamTrigger.Consumer.Settings
import StreamTrigger.Dispatch.Accumulator
import StreamTrigger.Dispatch.Grouping
import StreamTrigger.Dispatch.Lane
import StreamTrigger.Dispatch.Queue
import StreamTrigger.Dispatch.Worker
import StreamTrigger.Event
import StreamTrigger.Fault
import StreamTrigger.Instant
import StreamTrigger.Listener.Ingestion
import StreamTrigger.Listener.Lifecycle
import StreamTrigger.Listener.Settings
import StreamTrigger.Mode
import StreamTrigger.Partition
import StreamTrigger.Record
import StreamTrigger.Rehearsal.Cluster
import StreamTrigger.Rehearsal.Crew
import StreamTrigger.Rehearsal.Desk
import StreamTrigger.Rehearsal.Double
import StreamTrigger.Rehearsal.Feed
import StreamTrigger.Rehearsal.Pipe
import StreamTrigger.Rehearsal.Script
import StreamTrigger.Rehearsal.Stage
import StreamTrigger.Rehearsal.Trial
import StreamTrigger.Rehearsal.World
import StreamTrigger.Scaling.Key
import StreamTrigger.Scaling.Monitor
import StreamTrigger.Scaling.PartitionCache
import StreamTrigger.Scaling.Provider
import StreamTrigger.Scaling.Registry
import StreamTrigger.Scaling.Sample
import StreamTrigger.Scaling.Target
import StreamTrigger.Scaling.Vote
import StreamTrigger.Service.Query
import StreamTrigger.Service.Routes
import StreamTrigger.Service.Target
import StreamTrigger.Table
import StreamTrigger.Telemetry.Log
import StreamTrigger.Telemetry.Measure
import StreamTrigger.Telemetry.Notice
import StreamTrigger.Text.Blank
import StreamTrigger.Text.Case
import StreamTrigger.Text.Instant
import StreamTrigger.Text.Json
import StreamTrigger.Text.Nearest
import StreamTrigger.Text.Numeral
import StreamTrigger.Text.Shown
import StreamTrigger.Text.Utf8
import StreamTrigger.Watermarks
import StreamTrigger.Proofs.Polling
import StreamTrigger.Proofs.AtLeastOnce
import StreamTrigger.Proofs.Membership
import StreamTrigger.Proofs.Reading
import StreamTrigger.Proofs.Restart
import StreamTrigger.Proofs.Committing
import StreamTrigger.Proofs.CommitSeries
import StreamTrigger.Proofs.Course
import StreamTrigger.Proofs.Resuming
import StreamTrigger.Proofs.Moves
import StreamTrigger.Proofs.Aborting
import StreamTrigger.Proofs.Lifetime
import StreamTrigger.Proofs.Handoff
import StreamTrigger.Proofs.Draining
import StreamTrigger.Proofs.Finishing
import StreamTrigger.Proofs.Agreement
import StreamTrigger.Proofs.Outcomes
import StreamTrigger.Proofs.WorkerCount
import StreamTrigger.Proofs.Hysteresis
import StreamTrigger.Proofs.Autoscaling
import StreamTrigger.Proofs.ClockOrder
import StreamTrigger.Proofs.CachedLag
import StreamTrigger.Proofs.BatchSizes
import StreamTrigger.Proofs.Pausing
import StreamTrigger.Proofs.ForeignPauses
import StreamTrigger.Proofs.Advancing
import StreamTrigger.Proofs.Sampling
import StreamTrigger.Proofs.Refusals
import StreamTrigger.Proofs.Voting
import StreamTrigger.Proofs.MonitorCalls
import StreamTrigger.Proofs.Refreshing
import StreamTrigger.Proofs.Backoff
import StreamTrigger.Proofs.Starting
import StreamTrigger.Proofs.LastOffset
import StreamTrigger.Proofs.GroupOrder
import StreamTrigger.Proofs.PartitionOrder
import StreamTrigger.Proofs.Looking
import StreamTrigger.Proofs.Operating
import StreamTrigger.Proofs.Serving
import StreamTrigger.Proofs.RoundRobin
import StreamTrigger.Proofs.LastReport
