import StreamTrigger.Broker
import StreamTrigger.Mode
import StreamTrigger.Telemetry.Log
import StreamTrigger.Telemetry.Measure
import StreamTrigger.Text.Shown

namespace StreamTrigger

inductive PollTask where
  | loopStarted (maxBatch intervalMs : Nat)
  | endOfPartition (p : Partition)
  | pollFailed (consecutive : Nat) (e : BrokerError)
  | pausedPollFailed (e : BrokerError)
  | assignmentUnreadable (e : BrokerError)
  | paused (partitions : Nat)
  | pauseFailed (e : BrokerError)
  | resumed (partitions : Nat)
  | resumeFailed (e : BrokerError)
  | flushAborted (dropped : Nat)
  | workerGone (dropped : Nat)
  | unheard
  | loopStopped
  | batchQueued (records : Nat)
  | batchRefused (records : Nat)
  | batchAborted (records : Nat)
  | queueFull (records capacity : Nat)
deriving DecidableEq, Repr

inductive WorkTask where
  | started (mode : DispatchMode)
  | abortedWaiting
  | abortedDispatching
  | stopped (batches : Nat)
  | timed (mode : DispatchMode)
  | recordFailed (p : Partition) (offset : Int) (failure : String)
  | batchFailed (records : Nat) (positions : List Position) (failure : String)
  | batchCompleted (records partitions : Nat)
  | received (r : Record)
  | advanced (p : Position)
  | regressed (p : Position) (last : Int)
  | storeFailed (p : Position) (e : BrokerError)
  | commitFailed (partitions : Nat) (e : BrokerError)
deriving DecidableEq, Repr

inductive ListenTask where
  | started (topic : String) (dispatch : DispatchMode) (commit : CommitMode)
  | stopRequested (topic : String)
  | stopped (topic : String)
  | timedOut (topic : String) (timeoutMs : Nat)
  | abortIgnored
  | workerFailed (f : Fault)
deriving DecidableEq, Repr

inductive ScaleTask where
  | metadataFailed (topic : String) (e : BrokerError)
  | lagFailed (topic group : String) (e : BrokerError)
  | highestLag (p : Partition) (lag total : Int)
  | sampled (topic : String) (lag partitions : Int)
  | targetChanged (topic group : String) (lag partitions concurrency target : Int)
  | targetGiven (topic : String) (target : Int)
  | voted (topic group : String) (workers : Nat) (vote : String)
deriving DecidableEq, Repr

inductive ConsumerTask where
  | clientFailed (e : BrokerError) (reason : String)
  | revoking (partitions : Nat)
  | rebalanceFailed (e : BrokerError)
  | assigned (partitions : List Partition)
  | autoCommitFailed (e : BrokerError)
deriving DecidableEq, Repr

inductive ServeTask where
  | monitorFailed
  | targetFailed
  | answered (method path : String) (status : Nat)
deriving DecidableEq, Repr

/-- The parts of a trigger only make notices; the wording and the names of the series are decided here. -/
inductive Notice where
  | poll (n : PollTask)
  | work (n : WorkTask)
  | listen (n : ListenTask)
  | scale (n : ScaleTask)
  | consumer (n : ConsumerTask)
  | serve (n : ServeTask)
deriving DecidableEq, Repr

private def partitionFields (p : Partition) : List (String × Field) :=
  [("topic", .text p.topic), ("partition", .number p.number)]

private def triggerSeries (name : String) (labels : List (String × String) := []) : Series :=
  ⟨"kafka_trigger_" ++ name, labels⟩

private def partitionLabels (p : Partition) : List (String × String) :=
  [("topic", p.topic), ("partition", toString p.number)]

namespace PollTask

def line? : PollTask → Option LogLine
  | loopStarted maxBatch intervalMs =>
      some ⟨.info, "Ingestion loop started", [("max_batch_size", .number maxBatch), ("interval_ms", .number intervalMs)]⟩
  | endOfPartition p => some ⟨.info, "Reached end of partition", partitionFields p⟩
  | pollFailed n e => some ⟨.error, "Error polling Kafka: " ++ e.message, [("consecutive_errors", .number n)]⟩
  | pausedPollFailed e => some ⟨.warn, "Error polling Kafka while paused: " ++ e.message, []⟩
  | assignmentUnreadable e => some ⟨.warn, "Failed to read assignment, not pausing: " ++ e.message, []⟩
  | paused n => some ⟨.info, "Paused consumption while queue is full", [("partitions", .number n)]⟩
  | pauseFailed e => some ⟨.warn, "Failed to pause partitions: " ++ e.message, []⟩
  | resumed n => some ⟨.info, "Resumed consumption", [("partitions", .number n)]⟩
  | resumeFailed e => some ⟨.warn, "Failed to resume partitions: " ++ e.message, []⟩
  | flushAborted n => some ⟨.warn, "Flush aborted, stopping ingestion", [("dropped", .number n)]⟩
  | workerGone n => some ⟨.warn, "Dispatch worker is gone, stopping ingestion", [("dropped", .number n)]⟩
  | unheard => some ⟨.warn, "Listener stopped waiting before the ingestion loop finished", []⟩
  | loopStopped => some ⟨.info, "Ingestion loop stopped", []⟩
  | batchQueued _ => none
  | batchRefused n => some ⟨.warn, "Dispatch queue closed, dropping batch", [("records", .number n)]⟩
  | batchAborted n => some ⟨.warn, "Flush aborted while dispatch queue was full", [("records", .number n)]⟩
  | queueFull n capacity =>
      some ⟨.info, "Queue full, waiting for processing", [("records", .number n), ("capacity", .number capacity)]⟩

def measures : PollTask → List Measure
  | endOfPartition _ => [.count (triggerSeries "partition_eof_total") 1]
  | pollFailed _ _ => [.count (triggerSeries "poll_errors_total") 1]
  | pausedPollFailed _ => [.count (triggerSeries "poll_errors_total") 1]
  | paused _ => [.count (triggerSeries "partition_pauses_total") 1]
  | batchQueued n => [.size (triggerSeries "batch_size") n]
  | batchRefused _ => [.count (triggerSeries "batches_dropped_total" [("reason", "closed")]) 1]
  | batchAborted _ => [.count (triggerSeries "batches_dropped_total" [("reason", "aborted")]) 1]
  | queueFull _ _ => [.count (triggerSeries "queue_full_waits_total") 1]
  | _ => []

end PollTask

namespace WorkTask

def line? : WorkTask → Option LogLine
  | started mode => some ⟨.info, "Dispatch worker started", [("mode", .text mode.name)]⟩
  | abortedWaiting => some ⟨.warn, "Dispatch worker aborted while waiting for a batch", []⟩
  | abortedDispatching => some ⟨.warn, "Dispatch worker aborted during a batch", []⟩
  | stopped n => some ⟨.info, "Dispatch worker stopped", [("batches", .number n)]⟩
  | timed _ => none
  | recordFailed p offset failure =>
      some ⟨.warn, "Record callback failed: " ++ failure, partitionFields p ++ [("offset", .number offset)]⟩
  | batchFailed n positions failure =>
      let last := positions.map (fun p => p.partition.text ++ "@" ++ toString (p.offset - 1))
      some ⟨.error, "Batch callback failed: " ++ failure,
        [("records", .number n), ("partitions", .text (Text.shownList last))]⟩
  | batchCompleted n partitions =>
      some ⟨.debug, "Batch callback completed", [("records", .number n), ("partitions", .number partitions)]⟩
  | received r =>
      some ⟨.info, "Received record",
        partitionFields r.partition ++ [("offset", .number r.offset), ("bytes", .number r.size)]⟩
  | advanced p =>
      some ⟨.debug, "Advancing committed offset", partitionFields p.partition ++ [("offset", .number p.offset)]⟩
  | regressed p last =>
      some ⟨.warn, "Dropping commit that does not advance the partition",
        partitionFields p.partition ++ [("offset", .number p.offset), ("last_committed", .number last)]⟩
  | storeFailed p e =>
      some ⟨.warn, "Failed to store offset: " ++ e.message,
        partitionFields p.partition ++ [("offset", .number p.offset)]⟩
  | commitFailed n e => some ⟨.warn, "Failed to commit offsets: " ++ e.message, [("partitions", .number n)]⟩

def measures : WorkTask → List Measure
  | timed mode => [.duration (triggerSeries "callback_duration_seconds" [("mode", mode.name)])]
  | recordFailed _ _ _ => [.count (triggerSeries "callback_failures_total" [("mode", "single")]) 1]
  | batchFailed _ _ _ => [.count (triggerSeries "callback_failures_total" [("mode", "multi")]) 1]
  | advanced p => [.gauge (triggerSeries "partition_last_committed_offset" (partitionLabels p.partition)) p.offset]
  | regressed p _ => [.count (triggerSeries "commit_regressions_total" (partitionLabels p.partition)) 1]
  | storeFailed _ _ => [.count (triggerSeries "commit_failures_total" [("source", "store")]) 1]
  | commitFailed _ _ => [.count (triggerSeries "commit_failures_total" [("source", "commit")]) 1]
  | _ => []

end WorkTask

namespace ListenTask

def line : ListenTask → LogLine
  | started topic dispatch commit =>
      ⟨.info, "Listener started",
        [("topic", .text topic), ("dispatch_mode", .text dispatch.name), ("commit_mode", .text commit.name)]⟩
  | stopRequested topic => ⟨.info, "Listener stop requested", [("topic", .text topic)]⟩
  | stopped topic => ⟨.info, "Listener stopped", [("topic", .text topic)]⟩
  | timedOut topic ms =>
      ⟨.warn, "Listener did not stop in time, aborting in-flight work", [("topic", .text topic), ("timeout_ms", .number ms)]⟩
  | abortIgnored => ⟨.warn, "Dispatch worker did not observe abort", []⟩
  | workerFailed f => ⟨.error, "Dispatch worker task failed: " ++ f.message, []⟩

end ListenTask

namespace ScaleTask

def line? : ScaleTask → Option LogLine
  | metadataFailed topic e =>
      some ⟨.warn, "Failed to load partition metadata: " ++ e.message, [("topic", .text topic)]⟩
  | lagFailed topic group e =>
      some ⟨.warn, "Failed to compute consumer lag: " ++ e.message,
        [("topic", .text topic), ("consumer_group", .text group)]⟩
  | highestLag p lag total =>
      some ⟨.info, "Partition with highest lag",
        partitionFields p ++ [("lag", .number lag), ("total_lag", .number total)]⟩
  | sampled _ _ _ => none
  | targetChanged topic group lag partitions concurrency target =>
      some ⟨.info, "Target worker count changed",
        [("topic", .text topic), ("consumer_group", .text group), ("total_lag", .number lag),
          ("partition_count", .number partitions), ("concurrency", .number concurrency), ("target", .number target)]⟩
  | targetGiven _ _ => none
  | voted topic group workers vote =>
      some ⟨.info, "Scale vote",
        [("topic", .text topic), ("consumer_group", .text group), ("worker_count", .number workers),
          ("vote", .text vote)]⟩

def measures : ScaleTask → List Measure
  | metadataFailed _ _ => [.count (triggerSeries "lag_query_failures_total" [("operation", "metadata")]) 1]
  | lagFailed _ _ _ => [.count (triggerSeries "lag_query_failures_total" [("operation", "lag")]) 1]
  | sampled topic lag partitions =>
      [.gauge (triggerSeries "consumer_lag" [("topic", topic)]) lag,
        .gauge (triggerSeries "partition_count" [("topic", topic)]) partitions]
  | targetGiven topic target => [.gauge (triggerSeries "target_worker_count" [("topic", topic)]) target]
  | _ => []

end ScaleTask

namespace ConsumerTask

def line? : ConsumerTask → Option LogLine
  | clientFailed e reason =>
      some ⟨.error, "Kafka client error: " ++ reason, [("error", .text ("KafkaError (" ++ e.message ++ ")"))]⟩
  | revoking n => some ⟨.info, "Revoking " ++ toString n ++ " partitions", []⟩
  | rebalanceFailed e => some ⟨.error, "Rebalance error: " ++ e.message, []⟩
  | assigned ps =>
      some ⟨.info, "Assigned " ++ toString ps.length ++ " partitions",
        [("partitions", .text (Text.shownList (ps.map Partition.text)))]⟩
  | autoCommitFailed e => some ⟨.warn, "Offset commit failed: " ++ e.message, []⟩

def measures : ConsumerTask → List Measure
  | revoking n => [.count (triggerSeries "rebalance_partitions_total" [("event_type", "revoke")]) n]
  | assigned ps => [.count (triggerSeries "rebalance_partitions_total" [("event_type", "assign")]) ps.length]
  | autoCommitFailed _ => [.count (triggerSeries "commit_failures_total" [("source", "auto_commit")]) 1]
  | _ => []

end ConsumerTask

namespace ServeTask

def measures : ServeTask → List Measure
  | answered method path status =>
      let labels := [("method", method), ("path", path), ("status", toString status)]
      [.count ⟨"http_requests_total", labels⟩ 1, .duration ⟨"http_requests_duration_seconds", labels⟩]
  | _ => []

end ServeTask

namespace Notice

def line? : Notice → Option LogLine
  | poll n => n.line?
  | work n => n.line?
  | listen n => some n.line
  | scale n => n.line?
  | consumer n => n.line?
  | serve _ => none

def measures : Notice → List Measure
  | poll n => n.measures
  | work n => n.measures
  | listen _ => []
  | scale n => n.measures
  | consumer n => n.measures
  | serve n => n.measures

def isPoll : Notice → Bool
  | poll _ => true
  | _ => false

def isWork : Notice → Bool
  | work _ => true
  | _ => false

def isListen : Notice → Bool
  | listen _ => true
  | _ => false

def lines (ns : List Notice) : List LogLine := (ns.filterMap line?).filter LogLine.written

def readings (ns : List Notice) : Readings := Readings.ofMeasures (ns.flatMap measures)

end Notice

end StreamTrigger
