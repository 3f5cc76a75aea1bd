import StreamTrigger.Broker

namespace StreamTrigger

/-- Offsets count the values from the beginning; retention only moves the low mark. -/
structure PartitionLog where
  low : Int := 0
  values : List Bytes := []
deriving DecidableEq, Repr

namespace PartitionLog

def high (l : PartitionLog) : Int := l.values.length

def watermarks (l : PartitionLog) : Watermarks := .ofOffsets l.low l.high

def value? (l : PartitionLog) (offset : Int) : Option Bytes :=
  if 0 ≤ offset then l.values[offset.toNat]? else none

end PartitionLog

/-- Groups commit by the number of a partition, whatever topic was named. -/
structure Cluster where
  topic : String
  logs : List PartitionLog
  committed : Table (String × Int) Int := Table.empty

namespace Cluster

def make (topic : String) (partitions : Int) : Cluster := { topic := topic, logs := List.replicate partitions.toNat {} }

def size (c : Cluster) : Nat := c.logs.length

def index (p : Int) : Nat := if 0 ≤ p then p.toNat else (18446744073709551616 + p).toNat

def log (c : Cluster) (p : Int) : Except Fault PartitionLog :=
  match c.logs[index p]? with
  | some l => .ok l
  | none => .error (.outOfBounds c.size (index p))

def setLog (c : Cluster) (p : Int) (l : PartitionLog) : Cluster := { c with logs := c.logs.set (index p) l }

def produce (c : Cluster) (p : Int) (value : Bytes) : Except Fault (Cluster × Int) := do
  let l ← c.log p
  return (c.setLog p { l with values := l.values ++ [value] }, l.high)

def truncate (c : Cluster) (p offset : Int) : Except Fault Cluster := do
  let l ← c.log p
  return c.setLog p { l with low := offset }

def watermarks (c : Cluster) (p : Int) : Except Fault Watermarks := (c.log p).map PartitionLog.watermarks

def committed? (c : Cluster) (group : String) (p : Int) : Option Int := c.committed.get? (group, p)

def setCommitted (c : Cluster) (group : String) (p offset : Int) : Cluster :=
  { c with committed := c.committed.insert (group, p) offset }

def partition (c : Cluster) (p : Int) : Partition := ⟨c.topic, p⟩

end Cluster

structure Trouble where
  commits : Bool := false
  metadata : Bool := false
  lagQueries : Bool := false
  cacheUnset : Bool := false
  polls : Nat := 0
deriving DecidableEq, Repr

/-- A member reads all partitions in turn, resumes from what its group has committed, and writes stored positions to
the group on every poll and when it leaves. -/
structure Member where
  group : String
  announcesEnds : Bool := false
  trouble : Trouble := {}
  next : Nat := 0
  positions : Table Int Int := Table.empty
  paused : List Int := []
  ended : List Int := []
  stored : Table Int Int := Table.empty
  closed : Bool := false
  storeCalls : List Position := []
  commitCalls : List (List Position) := []
  pauseCalls : Nat := 0
  watermarkQueries : Nat := 0
  metadataCalls : Nat := 0

namespace Member

/-- Where the member reads next: a position that retention has overtaken moves up to the low mark. -/
def position (m : Member) (c : Cluster) (p : Int) (l : PartitionLog) : Int :=
  max ((m.positions.get? p).getD ((c.committed? m.group p).getD l.low)) l.low

/-- A look at one partition. The end of a partition is announced once for each time it is reached. -/
def visit (m : Member) (c : Cluster) (p : Nat) (l : PartitionLog) : Member × Option PollEvent :=
  let position := m.position c p l
  if position < l.high then
    ({ m with
        positions := m.positions.insert p (position + 1)
        next := (p + 1) % c.size
        ended := m.ended.filter (fun q => q ≠ p) },
      some (.record (.consumed (c.partition p) position 0 none (l.value? position) [])))
  else
    let m := { m with positions := m.positions.insert p position }
    if m.announcesEnds && !m.ended.contains p then
      ({ m with ended := p :: m.ended }, some (.endOfPartition (c.partition p)))
    else (m, none)

def scan (m : Member) (c : Cluster) : List Nat → Member × Option PollEvent
  | [] => (m, none)
  | p :: ps =>
      if m.paused.contains p then scan m c ps
      else
        match c.logs[p]? with
        | none => scan m c ps
        | some l =>
            match m.visit c p l with
            | (m, some e) => (m, some e)
            | (m, none) => scan m c ps

def round (m : Member) (c : Cluster) : List Nat := (List.range c.size).map (fun i => (m.next + i) % c.size)

end Member

structure Connection where
  cluster : Cluster
  member : Member

namespace Connection

def flush (s : Connection) : Connection :=
  ⟨s.member.stored.entries.foldl (fun c e => c.setCommitted s.member.group e.1 e.2) s.cluster,
    { s.member with stored := Table.empty }⟩

def poll (s : Connection) : Connection × Except BrokerError (Option PollEvent) :=
  match s.member.trouble.polls with
  | n + 1 =>
      ({ s with member := { s.member with trouble := { s.member.trouble with polls := n } } },
        .error (.messageConsumption .transportFailure))
  | 0 =>
      let s := s.flush
      if s.member.closed then (s, .ok none)
      else
        let (m, e) := s.member.scan s.cluster (s.member.round s.cluster)
        ({ s with member := m }, .ok e)

def commit (s : Connection) (ps : List Position) : Connection × Except BrokerError Unit :=
  let m := { s.member with commitCalls := s.member.commitCalls ++ [ps] }
  if m.trouble.commits then (⟨s.cluster, m⟩, .error (.consumerCommit .requestTimedOut))
  else (⟨ps.foldl (fun c p => c.setCommitted m.group p.partition.number p.offset) s.cluster, m⟩, .ok ())

def store (s : Connection) (p : Position) : Connection :=
  ⟨s.cluster,
    { s.member with
      stored := s.member.stored.insert p.partition.number p.offset
      storeCalls := s.member.storeCalls ++ [p] }⟩

def pause (s : Connection) (ps : List Partition) : Connection :=
  ⟨s.cluster,
    { s.member with
      pauseCalls := s.member.pauseCalls + 1
      paused := ps.foldl (fun l p => if l.contains p.number then l else l ++ [p.number]) s.member.paused }⟩

def resume (s : Connection) (ps : List Partition) : Connection :=
  ⟨s.cluster, { s.member with paused := s.member.paused.filter (fun n => !ps.any (fun p => p.number == n)) }⟩

def assignment (s : Connection) : List Partition :=
  if s.member.closed then [] else (List.range s.cluster.size).map (fun (p : Nat) => s.cluster.partition p)

def reply {α : Type} : Except Fault α → Reply α
  | .ok a => .ok a
  | .error f => .broken f

def cachedWatermarks (s : Connection) (p : Partition) : Reply Watermarks :=
  if s.member.trouble.cacheUnset then .ok .unset else reply (s.cluster.watermarks p.number)

def queryWatermarks (s : Connection) (p : Partition) : Connection × Reply Watermarks :=
  (⟨s.cluster, { s.member with watermarkQueries := s.member.watermarkQueries + 1 }⟩,
    if s.member.trouble.lagQueries then .failed (.metadataFetch .requestTimedOut)
    else reply (s.cluster.watermarks p.number))

def committed (s : Connection) (ps : List Partition) : Except BrokerError (Table Partition (Option Int)) :=
  if s.member.trouble.lagQueries then .error (.metadataFetch .requestTimedOut)
  else .ok (.ofList (ps.map (fun p => (p, s.cluster.committed? s.member.group p.number))))

def partitions (s : Connection) (topic : String) : Connection × Reply (List Int) :=
  (⟨s.cluster, { s.member with metadataCalls := s.member.metadataCalls + 1 }⟩,
    if s.member.trouble.metadata then .failed (.metadataFetch .transportFailure)
    else if topic = s.cluster.topic then .ok ((List.range s.cluster.size).map (fun (p : Nat) => (p : Int)))
    else .ok [])

def close (s : Connection) : Connection :=
  let s := s.flush
  ⟨s.cluster, { s.member with closed := true }⟩

instance : Broker Connection where
  poll s _ := s.poll
  commit s ps := s.commit ps
  store s p := (s.store p, .ok ())
  pause s ps := (s.pause ps, .ok ())
  resume s ps := (s.resume ps, .ok ())
  assignment s := (s, .ok s.assignment)
  committed s ps _ := (s, s.committed ps)
  cachedWatermarks s p := (s, s.cachedWatermarks p)
  queryWatermarks s p _ := s.queryWatermarks p
  partitions s topic _ := s.partitions topic
  close s := s.close

end Connection

end StreamTrigger
