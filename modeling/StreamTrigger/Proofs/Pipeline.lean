import StreamTrigger.Dispatch.Worker
import StreamTrigger.Listener.Lifecycle
import StreamTrigger.Proofs.CommitCalls
import StreamTrigger.Proofs.Polling

namespace StreamTrigger

/-- A batch that the worker has `taken` is not yet begun. The worker is `attending` from a look at the abort request to
the end of its turn, and `call` is the commit that it makes in it. -/
structure Pipeline (β : Type) where
  listener : Listener
  loop : Ingestion
  queue : BatchQueue
  worker : Worker
  taken : Option Batch := none
  attending : Bool := false
  call : CommitCall
  tracker : Tracker
  broker : β
  marks : List Mark := []

namespace Pipeline

/-- The polling loop asks its question and goes on with the answer; the worker looks at the abort request, receives,
is driven on by its callbacks, completes a dispatch, makes a step of a commit, ends its turn, or leaves for good. -/
inductive Move (β : Type) where
  | ask (now : Nat) (heard : Bool)
  | look
  | receive
  | drive (a : Drive)
  | complete
  | commit
  | rest
  | leave
  | requestStop
  | abort
  | elsewhere (f : β → β)

variable {β : Type} [Broker β]

def reply (s : Pipeline β) (now : Nat) (heard : Bool) : Question → Pipeline β × Answer
  | .stopRequested => (s, .flag s.listener.stopRequested)
  | .now => (s, .time now)
  | .poll wait => let (b, r) := Broker.poll s.broker wait; ({ s with broker := b }, .polled r)
  | .offer batch => let (q, o) := s.queue.offer batch; ({ s with queue := q }, .offered o)
  | .aborted => (s, .looked s.queue.capacity s.listener.abortRequested)
  | .assignment => let (b, r) := Broker.assignment s.broker; ({ s with broker := b }, .assigned r)
  | .pause ps => let (b, r) := Broker.pause s.broker ps; ({ s with broker := b }, .told r)
  | .resume ps => let (b, r) := Broker.resume s.broker ps; ({ s with broker := b }, .told r)
  | .sleep _ => (s, .passed)
  | .release => ({ s with queue := s.queue.abandon }, .passed)
  | .signal => (s, .flag heard)

def hear (s : Pipeline β) (a : Answer) : Pipeline β :=
  { s with loop := (s.loop.step a).1, marks := s.marks ++ s.loop.marks a }

def ask (s : Pipeline β) (now : Nat) (heard : Bool) : Pipeline β :=
  match s.loop.asks with
  | none => s
  | some q => (s.reply now heard q).1.hear (s.reply now heard q).2

def input (s : Pipeline β) (a : WorkerInput) : Pipeline β :=
  { s with worker := (s.worker.step a).1, marks := s.marks ++ (s.worker.step a).2.map .event }

/-- Each turn of the worker begins with a look at the abort request. Where there is none, the dispatch of a batch that
was taken begins. -/
def look (s : Pipeline β) : Pipeline β :=
  if s.attending || s.worker.ended then s
  else if s.listener.abortRequested then s.input .abort
  else { s with attending := true, taken := none, marks := s.marks ++ s.taken.toList.map .begun }

/-- A batch is taken before the next look, an empty queue ends the turn. -/
def receive (s : Pipeline β) : Pipeline β :=
  match s.attending, s.worker.phase with
  | true, .waiting =>
      match s.queue.take with
      | (q, .batch b) => { s with queue := q, taken := some b, attending := false }.input (.received (some b))
      | (_, .pending) => { s with attending := false }
      | (_, .finished) => s.input (.received none)
  | _, _ => s

/-- Positions that are handed over are committed before the worker does anything else. -/
def drive (s : Pipeline β) (a : Drive) : Pipeline β :=
  if s.attending && s.call.done then
    { s.input (.drive a) with call := { s.call with unchecked := (s.worker.step (.drive a)).2.flatMap Event.handedOver } }
  else s

def complete (s : Pipeline β) : Pipeline β :=
  if s.attending && s.call.done then { s.input .complete with attending := false } else s

def commit (s : Pipeline β) : Pipeline β :=
  let (c, r) := s.call.step s.tracker s.broker
  { s with call := c, tracker := r.tracker, broker := r.broker, marks := s.marks ++ r.events.map .event }

def rest (s : Pipeline β) : Pipeline β := if s.call.done then { s with attending := false } else s

def leave (s : Pipeline β) : Pipeline β := if s.worker.ended then { s with queue := s.queue.discard } else s

def move (s : Pipeline β) : Move β → Pipeline β
  | .ask now heard => s.ask now heard
  | .look => s.look
  | .receive => s.receive
  | .drive a => s.drive a
  | .complete => s.complete
  | .commit => s.commit
  | .rest => s.rest
  | .leave => s.leave
  | .requestStop => { s with listener := s.listener.requestStop.1 }
  | .abort => { s with listener := { s.listener with abortRequested := true } }
  | .elsewhere f => { s with broker := f s.broker }

def run (s : Pipeline β) (ms : List (Move β)) : Pipeline β := ms.foldl move s

/-- What each move keeps, a run keeps. -/
theorem run_invariant {P : Pipeline β → Prop} (hmove : ∀ s m, P s → P (s.move m)) {s : Pipeline β} (h : P s)
    (ms : List (Move β)) : P (s.run ms) := by
  induction ms generalizing s with
  | nil => exact h
  | cons m ms ih => exact ih (hmove s m h)

/-- A stop is requested and its end awaited, through whatever happens `meanwhile`; then the client is closed. The wait
is over in time when both parties have come to their end. -/
def stop (s : Pipeline β) (meanwhile : List (Move β)) (timeoutMs : Nat) (observed : Bool) : Pipeline β × Bool :=
  let s := s.move .requestStop
  match s.listener.awaitStopped with
  | none => ({ s with broker := Broker.close s.broker }, true)
  | some l =>
      let s := { s with listener := l }.run meanwhile
      let wait := if s.loop.phase = .ended ∧ s.worker.ended then Wait.drained s.worker.fault? else .timedOut timeoutMs observed
      let (l, drained, _) := s.listener.waited wait
      ({ s with listener := l, broker := Broker.close s.broker }, drained)

def start (l : Listener) (t : Tracker) (b : β) : Except StartError (Pipeline β) :=
  l.start.map (fun (l, queue, _) =>
    { listener := l, loop := (Ingestion.start l.settings).1, queue := queue,
      worker := (Worker.start l.settings.dispatch).1, call := { mode := l.settings.commit }, tracker := t, broker := b })

end Pipeline

end StreamTrigger
