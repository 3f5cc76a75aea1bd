import StreamTrigger.Scaling.PartitionCache
import StreamTrigger.Scaling.Sample
import StreamTrigger.Telemetry.Notice

namespace StreamTrigger

structure Moment where
  time : Instant
  instant : Nat
deriving DecidableEq, Repr

structure LagProvider where
  topic : String
  group : String
  timeout : Nat
  cache : PartitionCache
  last : Option LagSample := none
deriving DecidableEq, Repr

structure Measured (β : Type) where
  provider : LagProvider
  broker : β
  sample : Except Fault LagSample
  notices : List ScaleTask

namespace LagProvider

def make (topic group : String) (timeout ttl : Nat) : LagProvider :=
  { topic := topic, group := group, timeout := timeout, cache := { ttl := ttl } }

def invalidate (p : LagProvider) : LagProvider := { p with cache := p.cache.invalidate }

def greatestCount : Nat := 2147483647

def total (lags : List (Partition × Int)) : Int := lags.foldl (fun sum l => Word.addClamped sum l.2) 0

def highest? (lags : List (Partition × Int)) : Option (Partition × Int) :=
  lags.foldl (fun best l => match best with
    | none => some l
    | some b => if l.2 ≤ b.2 then some b else some l) none

/-- Cached watermarks may not have come in yet; then they are not to be trusted. -/
def trusts (w : Watermarks) (committed : Option Int) : Bool :=
  w.high.isSome && !(w.low == some 0 && committed.isNone)

variable {β : Type} [Broker β]

/-- A cache that cannot be read is an empty one. Only what the client owns is in its cache. -/
def watermarks (p : LagProvider) (b : β) (q : Partition) (owned : Bool) (committed : Option Int) :
    β × Reply Watermarks :=
  if owned then
    match Broker.cachedWatermarks b q with
    | (b, .broken f) => (b, .broken f)
    | (b, .ok w) => if trusts w committed then (b, .ok w) else Broker.queryWatermarks b q p.timeout
    | (b, .failed _) => Broker.queryWatermarks b q p.timeout
  else Broker.queryWatermarks b q p.timeout

def lags (p : LagProvider) (committed : Table Partition (Option Int)) (owned : List Partition) (b : β) :
    List Partition → β × Reply (List (Partition × Int))
  | [] => (b, .ok [])
  | q :: qs =>
      let position := (committed.get? q).join
      match p.watermarks b q (owned.contains q) position with
      | (b, .failed e) => (b, .failed e)
      | (b, .broken f) => (b, .broken f)
      | (b, .ok w) =>
          match w.lag position with
          | .error f => (b, .broken f)
          | .ok lag =>
              match lags p committed owned b qs with
              | (b, .ok rest) => (b, .ok ((q, lag) :: rest))
              | other => other

def allLags (p : LagProvider) (b : β) (qs : List Partition) : β × Reply (List (Partition × Int)) :=
  match Broker.committed b qs p.timeout with
  | (b, .error e) => (b, .failed e)
  | (b, .ok committed) =>
      match Broker.assignment b with
      | (b, .ok owned) => p.lags committed owned b qs
      | (b, .error _) => p.lags committed [] b qs

def partitions (p : LagProvider) (b : β) (now : Nat) : LagProvider × β × Reply (List Partition) :=
  match p.cache.get? now with
  | some qs => (p, b, .ok qs)
  | none =>
      match Broker.partitions b p.topic p.timeout with
      | (b, .failed e) => (p, b, .failed e)
      | (b, .broken f) => (p, b, .broken f)
      | (b, .ok numbers) =>
          let qs := numbers.map (fun n => (⟨p.topic, n⟩ : Partition))
          ({ p with cache := p.cache.store qs now }, b, .ok qs)

def keep (p : LagProvider) (b : β) (s : LagSample) (notices : List ScaleTask) : Measured β :=
  ⟨{ p with last := some s }, b, .ok s, notices ++ [.sampled p.topic s.lag s.partitions]⟩

/-- Takes a sample. A lag that could not be found out counts as none. -/
def measure (p : LagProvider) (b : β) (now : Moment) : Measured β :=
  match p.partitions b now.instant with
  | (p, b, .failed e) => p.keep b ⟨0, 0, now.time⟩ [.metadataFailed p.topic e]
  | (p, b, .broken f) => ⟨p, b, .error f, []⟩
  | (p, b, .ok []) => p.keep b ⟨0, 0, now.time⟩ []
  | (p, b, .ok (q :: qs)) =>
      let count : Int := (min (q :: qs).length greatestCount : Nat)
      match p.allLags b (q :: qs) with
      | (b, .broken f) => ⟨p, b, .error f, []⟩
      | (b, .failed e) => p.keep b ⟨0, count, now.time⟩ [.lagFailed p.topic p.group e]
      | (b, .ok lags) =>
          let sum := total lags
          let notices := match highest? lags with
            | some (q, lag) => if 0 < lag then [ScaleTask.highestLag q lag sum] else []
            | none => []
          p.keep b ⟨sum, count, now.time⟩ notices

end LagProvider

end StreamTrigger
