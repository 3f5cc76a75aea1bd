import StreamTrigger.Telemetry.Notice

namespace StreamTrigger

/-- Watermarks of which nothing is known are not kept. -/
structure ConsumerContext where
  watermarks : Table Partition Watermarks := Table.empty

structure PartitionStatistics where
  partition : Partition
  low : Int
  high : Int
deriving DecidableEq, Repr

inductive ConsumerEvent where
  | statistics (rows : List PartitionStatistics)
  | clientFailed (e : BrokerError) (reason : String)
  | revoking (ps : List Partition)
  | assigning (ps : List Partition)
  | revoked (ps : List Partition)
  | assigned (ps : List Partition)
  | rebalanceFailing (e : BrokerError)
  | rebalanceFailed (e : BrokerError)
  | committed (ps : List Partition)
  | commitFailed (e : BrokerError) (ps : List Partition)
deriving DecidableEq, Repr

namespace ConsumerContext

def cached (c : ConsumerContext) (p : Partition) : Watermarks := (c.watermarks.get? p).getD .unset

def record (c : ConsumerContext) (p : Partition) (w : Watermarks) : ConsumerContext :=
  if w.isUnset then ⟨c.watermarks.erase p⟩ else ⟨c.watermarks.insert p w⟩

def forget (c : ConsumerContext) (ps : List Partition) : ConsumerContext :=
  ⟨ps.foldl (fun t p => t.erase p) c.watermarks⟩

/-- A negative number stands for no partition of the topic. -/
def learn (c : ConsumerContext) (s : PartitionStatistics) : ConsumerContext :=
  if s.partition.number < 0 then c else c.record s.partition (.ofRaw s.low s.high)

/-- Commits on a timer fail when nothing was stored; that is no failure to speak of. -/
def handle (c : ConsumerContext) : ConsumerEvent → ConsumerContext × List ConsumerTask
  | .statistics rows => (rows.foldl learn c, [])
  | .clientFailed e reason => (c, [.clientFailed e reason])
  | .revoking [] => (c, [])
  | .revoking ps => (c.forget ps, [.revoking ps.length])
  | .rebalanceFailing e => (c, [.rebalanceFailed e])
  | .assigned [] => (c, [])
  | .assigned ps => (c, [.assigned ps])
  | .commitFailed (.consumerCommit .noOffset) _ => (c, [])
  | .commitFailed e _ => (c, [.autoCommitFailed e])
  | .assigning _ | .revoked _ | .rebalanceFailed _ | .committed _ => (c, [])

end ConsumerContext

end StreamTrigger
