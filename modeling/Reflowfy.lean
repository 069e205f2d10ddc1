import Reflowfy.Interleaving.Pool
import Reflowfy.Worker.Outcomes
import Reflowfy.Worker.Claims
import Reflowfy.Lifecycle.States
import Reflowfy.Lifecycle.Retention
import Reflowfy.Lifecycle.DriverLease
import Reflowfy.Lifecycle.Recovery
import Reflowfy.Lifecycle.Cancel
import Reflowfy.Lifecycle.Settlement
import Reflowfy.Lifecycle.Orphans
import Reflowfy.Lifecycle.Attempts
import Reflowfy.Lifecycle.InProcess
import Reflowfy.Lifecycle.InFlight
import Reflowfy.Dedup.Deadlock
import Reflowfy.Dedup.AtMostOnce
import Reflowfy.Dedup.NothingLost
import Reflowfy.Sources.SnapshotWindows
import Reflowfy.Sources.RangeWindows
import Reflowfy.Sources.CompositePages
import Reflowfy.Sources.IdRanges
import Reflowfy.Sources.ObjectKeys
import Reflowfy.RateLimiter.Window
import Reflowfy.Planning.Batches
import Reflowfy.Worker.Offsets
import Reflowfy.Scheduler.FiresOnce
import Reflowfy.Dlq.Finality
import Reflowfy.Planning.IdBatches
import Reflowfy.Sources.RenderedOnce
import Reflowfy.Planning.PreviewPlans
import Reflowfy.Sources.PlanSizes
import Reflowfy.Manager.ExecutionStats
import Reflowfy.Dedup.Kept
import Reflowfy.Dedup.RecordHash
import Reflowfy.Dedup.Credentials
import Reflowfy.Transformations.IterativeFold
import Reflowfy.Transformations.RecordPool
import Reflowfy.Dispatcher.Prefix
import Reflowfy.Destinations.BadRecords
import Reflowfy.Planning.Enumeration
import Reflowfy.Worker.Messages
import Reflowfy.Sources.EveryId
import Reflowfy.Observability.LogLines
import Reflowfy.RateLimiter.Waiting
import Reflowfy.Destinations.LocalSends
import Reflowfy.Serialization.JsonData
import Reflowfy.Dlq.Groups
import Reflowfy.Lifecycle.Overrides
import Reflowfy.Worker.JobAccounting
import Reflowfy.Destinations.RecordRequests
import Reflowfy.Sources.CompositeRequests
import Reflowfy.ScheduleSync
import Reflowfy.Scheduler.Restarts
import Reflowfy.PipelineParameters
import Reflowfy.Planning.Parameters
import Reflowfy.PipelineResolution
import Reflowfy.Planning.Resolution
import Reflowfy.SourceFactory
import Reflowfy.Serialization.Descriptors
import Reflowfy.Sources.QueryPlans
import Reflowfy.Lifecycle.Requests
