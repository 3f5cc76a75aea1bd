import StreamTrigger.Scaling.Key
import StreamTrigger.Scaling.Provider

namespace StreamTrigger

structure ScalerState where
  target : Option Nat := none
  scaledUp : Option Instant := none
deriving DecidableEq, Repr

def ScalerState.json (s : ScalerState) : String :=
  Text.jsonObject [("last_target_worker_count", Text.jsonOption (fun (n : Nat) => Text.jsonInt n) s.target),
    ("last_scale_up_time", Text.jsonOption (fun t => Text.jsonString (Text.rfc3339 t)) s.scaledUp)]

inductive ScalerError where
  | invalidConcurrency (concurrency : Int)
deriving DecidableEq, Repr

def ScalerError.message : ScalerError → String
  | invalidConcurrency c => "instance concurrency must be at least 1, got " ++ toString c

/-- The lag that one worker is trusted with is the threshold, unless a caller knows better. Spans are in nanoseconds. -/
structure TargetScaler where
  key : ScalerKey
  threshold : Int
  freshness : Int := 180000000000
  throttle : Int := 60000000000
deriving DecidableEq, Repr

structure Evaluation where
  state : ScalerState
  result : Except ScalerError Nat
  notices : List ScaleTask

def targetJson (target : Nat) : String := Text.jsonObject [("target_worker_count", Text.jsonInt target)]

namespace TargetScaler

def longest : Int := 9223372036854775807 * 1000000

def span (n : Nat) : Int := min (n : Int) longest

def cap (target partitions : Int) : Nat := (max (min target partitions) 0).toNat

def concurrency (s : TargetScaler) (wanted : Option Nat) : Except ScalerError Int :=
  let c := match wanted with
    | some n => (n : Int)
    | none => s.threshold
  if c < 1 then .error (.invalidConcurrency c) else .ok c

/-- One worker for each full share of the lag, and one for the rest. -/
def shares (lag concurrency : Int) : Int := lag / concurrency + if lag % concurrency = 0 then 0 else 1

/-- A decrease, or no change, has to wait until the last increase is long enough ago. -/
def hold (s : TargetScaler) (state : ScalerState) (wanted : Nat) (now : Instant) : Nat × ScalerState :=
  match state.target with
  | none => (wanted, if 0 < wanted then { state with scaledUp := some now } else state)
  | some last =>
      if last < wanted then (wanted, { state with scaledUp := some now })
      else
        match state.scaledUp with
        | some t => (if now.since t < s.throttle then last else wanted, state)
        | none => (wanted, state)

def evaluate (s : TargetScaler) (state : ScalerState) (wanted : Option Nat) (sample : LagSample) (now : Instant) :
    Evaluation :=
  if sample.lag ≤ 0 then ⟨{ state with target := some 1 }, .ok 1, [.targetGiven s.key.topic 1]⟩
  else
    match s.concurrency wanted with
    | .error e => ⟨state, .error e, []⟩
    | .ok c =>
        let (target, held) := s.hold state (cap (shares sample.lag c) sample.partitions) now
        let change := if state.target = some target then []
          else [.targetChanged s.key.topic s.key.group sample.lag sample.partitions c target]
        ⟨{ held with target := some target }, .ok target, change ++ [.targetGiven s.key.topic target]⟩

def fresh (s : TargetScaler) (sample : LagSample) (now : Instant) : Bool := now.since sample.time ≤ s.freshness

/-- The last sample while it is fresh, a new one otherwise. The age is that at the first moment, a new sample is
taken at the second. -/
def sample {β : Type} [Broker β] (s : TargetScaler) (p : LagProvider) (b : β) (asked : Instant) (taken : Moment) :
    Measured β :=
  match p.last with
  | some x => if s.fresh x asked then ⟨p, b, .ok x, []⟩ else p.measure b taken
  | none => p.measure b taken

end TargetScaler

end StreamTrigger
