import StreamTrigger.Rehearsal.Script
import StreamTrigger.Service.Routes

namespace StreamTrigger

structure Desk where
  provider : LagProvider
  broker : ScriptedBroker
  clock : Nat := 0
  pending : List Notice := []

namespace Desk

def opening : Int := 1700000000000000000

def glance : Nat := 1000

def look (d : Desk) : Desk × Moment :=
  let d := { d with clock := d.clock + glance }
  (d, ⟨.ofNanos (opening + d.clock), d.clock⟩)

def change (d : Desk) (cs : List ScriptChange) : Desk := { d with broker := d.broker.change cs }

def note (d : Desk) (ns : List ScaleTask) : Desk := { d with pending := d.pending ++ ns.map .scale }

def keep (d : Desk) (m : Measured ScriptedBroker) : Desk × Except Fault LagSample :=
  ({ d with provider := m.provider, broker := m.broker }.note m.notices, m.sample)

def report (d : Desk) : Desk × List BrokerCall × List Notice :=
  ({ d with broker := { d.broker with calls := [] }, pending := [] }, d.broker.calls, d.pending)

def measure (d : Desk) : Desk × Except Fault LagSample :=
  let (d, now) := d.look
  d.keep (d.provider.measure d.broker now)

def monitor (d : Desk) (m : ScaleMonitor) : ScaleMonitor × Desk × Except Fault LagSample :=
  let (d, now) := d.look
  let (m, x) := m.sample d.provider d.broker now
  (m, d.keep x)

def sampleAt (d : Desk) (s : TargetScaler) (age : Int) : Desk × Except Fault LagSample :=
  let (d, now) := d.look
  let last := (d.provider.last.map LagSample.time).getD now.time
  d.keep (s.sample d.provider d.broker (.ofNanos (last.nanos + age)) now)

def serve (d : Desk) (s : Service ScriptedBroker) (r : Request) (counted : Bool) :
    Desk × Service ScriptedBroker × Response :=
  let (d, asked) := d.look
  let (d, taken) := d.look
  let x := if counted then s.serveCounted r asked.time taken else s.serve r asked.time taken
  ({ d with pending := d.pending ++ x.notices }, x.service, x.response)

end Desk

structure Office where
  scaler : TargetScaler
  desk : Desk
  own : ScalerState := {}

namespace Office

def evaluate (o : Office) (r : Registry) (direct : Bool) (wanted : Option Nat) :
    Office × Registry × Except Fault Evaluation :=
  let (d, asked) := o.desk.look
  let (d, taken) := d.look
  match d.keep (o.scaler.sample d.provider d.broker asked.time taken) with
  | (d, .error f) => ({ o with desk := d }, r, .error f)
  | (d, .ok s) =>
      if direct then
        let e := o.scaler.evaluate o.own wanted s asked.time
        ({ o with desk := d.note e.notices, own := e.state }, r, .ok e)
      else
        let (r, e) := r.evaluate o.scaler wanted s asked.time
        ({ o with desk := d.note e.notices }, r, .ok e)

end Office

end StreamTrigger
