import StreamTrigger.Callback
import StreamTrigger.Telemetry.Notice

namespace StreamTrigger

/-- A position is first handed to the commit strategy; what the strategy claims of it reaches the broker as a
stored or a committed position. -/
inductive Event where
  | started (i : Invocation)
  | ended (i : Invocation) (o : Outcome)
  | handed (ps : List Position)
  | stored (p : Position)
  | committed (ps : List Position)
  | noted (n : Notice)
deriving DecidableEq, Repr

namespace Event

def notice? : Event → Option Notice
  | noted n => some n
  | _ => none

def notices (es : List Event) : List Notice := es.filterMap notice?

def submitted : Event → List Position
  | stored p => [p]
  | committed ps => ps
  | _ => []

end Event

end StreamTrigger
