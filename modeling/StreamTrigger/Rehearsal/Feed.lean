import StreamTrigger.Instant
import StreamTrigger.Rehearsal.Cluster
import StreamTrigger.Rehearsal.Script

namespace StreamTrigger

structure Outlook where
  started : Nat
  stopRequested : Bool
  awaited : Bool
deriving DecidableEq, Repr

inductive PollReadiness where
  | blocked
  | passed (permits : Nat)
  | answers
deriving DecidableEq, Repr

class Feed (β : Type) extends Broker β where
  prepare : β → Outlook → β × PollReadiness
  takes : β → Nat → Nat
  exhausted : β → Bool
  parked : β → Nat

namespace ScriptedBroker

def skip (b : ScriptedBroker) (rest : List PollStep) : ScriptedBroker := { b with polls := rest, parking := false }

def park (b : ScriptedBroker) (rest : List PollStep) (met : Bool) : ScriptedBroker × PollReadiness :=
  let b := if b.parking then b else { b with parked := b.parked + 1, parking := true }
  if met then (b.skip rest, .passed 0) else (b, .blocked)

def prepare (b : ScriptedBroker) (o : Outlook) : ScriptedBroker × PollReadiness :=
  match b.polls with
  | .change cs :: rest => ((b.change cs).skip rest, .passed 0)
  | .untilStarted n :: rest => if n ≤ o.started then (b.skip rest, .passed 0) else (b, .blocked)
  | .release n :: rest => (b.skip rest, .passed n)
  | .untilStopRequested :: rest => b.park rest o.stopRequested
  | .untilAwaited :: rest => b.park rest o.awaited
  | _ => (b, .answers)

def idle : Nat := Span.millisecond

def takes (b : ScriptedBroker) : Nat :=
  match b.polls with
  | .sleep span :: _ => span
  | [] => idle
  | _ => 0

instance : Feed ScriptedBroker where
  prepare := prepare
  takes b _ := takes b
  exhausted b := b.polls.isEmpty
  parked := parked

end ScriptedBroker

instance : Feed Connection where
  prepare s _ := (s, .answers)
  takes s wait :=
    match s.poll.2 with
    | .ok none => wait
    | _ => 0
  exhausted _ := true
  parked _ := 0

end StreamTrigger
