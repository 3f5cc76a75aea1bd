import StreamTrigger.Commit.Tracker
import StreamTrigger.Event

namespace StreamTrigger

structure Committed (β : Type) where
  tracker : Tracker
  broker : β
  events : List Event

namespace CommitMode

variable {β : Type} [Broker β]

def store (b : β) : List Position → β × List Event
  | [] => (b, [])
  | p :: ps =>
      let (b, reply) := Broker.store b p
      let (b', events) := store b ps
      match reply with
      | .ok _ => (b', .stored p :: events)
      | .error e => (b', .stored p :: .noted (.work (.storeFailed p e)) :: events)

def commitAll (b : β) (ps : List Position) : β × List Event :=
  if ps.isEmpty then (b, [])
  else
    match Broker.commit b ps with
    | (b, .ok _) => (b, [.committed ps])
    | (b, .error e) => (b, [.committed ps, .noted (.work (.commitFailed ps.length e))])

/-- Claims come first, the broker is called with what they left. -/
def commit (mode : CommitMode) (t : Tracker) (b : β) (ps : List Position) : Committed β :=
  let a := t.advance ps
  let claims := a.notices.map (fun n => Event.noted (.work n))
  let (b, events) :=
    match mode with
    | buffered => store b a.claimed
    | immediate => commitAll b a.claimed
  ⟨a.tracker, b, claims ++ events⟩

end CommitMode

end StreamTrigger
