import StreamTrigger.Scaling.Provider
import StreamTrigger.Scaling.Vote
import StreamTrigger.Text.Case

namespace StreamTrigger

structure ScaleMonitor where
  id : String
  scaler : TopicScaler
  samples : List LagSample := []
deriving DecidableEq, Repr

namespace ScaleMonitor

def make (function group : String) (scaler : TopicScaler) (topic : String) : ScaleMonitor :=
  { id := Text.lowercase (function ++ "-kafkatrigger-" ++ topic ++ "-" ++ group), scaler := scaler }

def record (m : ScaleMonitor) (s : LagSample) : ScaleMonitor :=
  { m with samples := TopicScaler.recent TopicScaler.window (m.samples ++ [s]) }

def status (m : ScaleMonitor) (workers : Nat) : Vote × List ScaleTask := m.scaler.status workers m.samples

def sample {β : Type} [Broker β] (m : ScaleMonitor) (p : LagProvider) (b : β) (now : Moment) :
    ScaleMonitor × Measured β :=
  let x := p.measure b now
  (match x.sample with
    | .ok s => m.record s
    | .error _ => m, x)

end ScaleMonitor

end StreamTrigger
