import StreamTrigger.Listener.Ingestion
import StreamTrigger.Listener.Lifecycle
import StreamTrigger.Rehearsal.Crew
import StreamTrigger.Rehearsal.Feed

namespace StreamTrigger

structure Poller where
  loop : Ingestion
  asleep : Option (Nat × Answer) := none

structure Run where
  poller : Poller
  crew : Crew
  givenUp : Bool := false

/-- One who acts, a polling thread and a worker take turns, and time passes only while all of them wait. -/
structure Stage (β : Type) where
  listener : Listener
  world : World β
  runs : List Run := []
  awaited : Bool := false

inductive Action where
  | start
  | isRunning
  | requestStop
  | await (timeoutMs : Nat)
  | stop (timeoutMs : Nat)
  | topic
  | snapshot
  | release (n : Nat)
  | untilScript
  | untilStarted (n : Nat)
  | untilParked (n : Nat)
  | untilSettled
  | untilPollingEnd
  | untilWorkerEnd
  | untilProcessed (n limit : Nat)
  | untilStartedBy (n limit : Nat)
deriving DecidableEq, Repr

inductive ActionAnswer where
  | done
  | refused (e : StartError)
  | flag (b : Bool)
  | text (s : String)
  | positions (ps : List Position)
deriving DecidableEq, Repr

def ActionAnswer.fault? : ActionAnswer → Option Fault
  | refused (.faulted f) => some f
  | _ => none

namespace Run

def pollingEnded (r : Run) : Bool := r.poller.loop.phase == .ended

def workerEnded (r : Run) : Bool := r.crew.ended

def settled (r : Run) : Bool :=
  let flushing := match r.poller.loop.phase with
    | .flushing _ _ => true
    | _ => false
  !flushing && r.crew.queue.items.isEmpty && (r.crew.dispatch?).isNone

end Run

namespace Stage

variable {β : Type} [Feed β]

def make (settings : ListenerSettings) (broker : β) (double : CallbackDouble) (claimed : List Position) :
    Stage β :=
  let world : World β := { broker := broker, double := double, commits := some settings.commit }
  let a := world.tracker.advance claimed
  let world := a.notices.foldl (fun w n => w.report (.work n)) { world with tracker := a.tracker }
  { listener := { settings := settings }, world := world }

def report (s : Stage β) (ns : List ListenTask) : Stage β :=
  { s with world := ns.foldl (fun w n => w.report (.listen n)) s.world }

def current? (s : Stage β) : Option Run := s.runs.getLast?

def outlook (s : Stage β) : Outlook := ⟨s.world.started, s.listener.stopRequested, s.awaited⟩

def setRun (s : Stage β) (i : Nat) (r : Run) : Stage β :=
  let runs := s.runs.set i r
  { s with runs := runs, world := { s.world with pollingEnded := runs.all Run.pollingEnded } }

def answer (s : Stage β) (i : Nat) (r : Run) (a : Answer) : Stage β :=
  let (loop, ns) := r.poller.loop.step a
  let world := ns.foldl (fun w n => w.report (.poll n)) s.world
  { s with world := world }.setRun i { r with poller := { loop := loop } }

def sleep (s : Stage β) (i : Nat) (r : Run) (span : Nat) (a : Answer) : Stage β :=
  if span = 0 then s.answer i r a
  else s.setRun i { r with poller := { r.poller with asleep := some (s.world.clock + span, a) } }

def setBroker (s : Stage β) (b : β) : Stage β := { s with world := { s.world with broker := b } }

def glance : Nat := 1000

def pollOnce? (s : Stage β) (i : Nat) (r : Run) : Option (Stage β) :=
  match r.poller.asleep with
  | some (wake, a) => if wake ≤ s.world.clock then some (s.answer i r a) else none
  | none =>
      match r.poller.loop.asks with
      | none => none
      | some .stopRequested => some (s.answer i r (.flag s.listener.stopRequested))
      | some .now =>
          let clock := s.world.clock + glance
          some ({ s with world := { s.world with clock := clock } }.answer i r (.time clock))
      | some (.poll wait) =>
          match Feed.prepare s.world.broker s.outlook with
          | (b, .blocked) => if Feed.parked b = Feed.parked s.world.broker then none else some (s.setBroker b)
          | (b, .passed n) => some { s.setBroker b with world := { s.world with broker := b }.release n }
          | (b, .answers) =>
              let span := Feed.takes b wait
              let (b, reply) := Broker.poll b wait
              some ((s.setBroker b).sleep i r span (.polled reply))
      | some (.offer batch) =>
          let (queue, o) := r.crew.queue.offer batch
          some (s.answer i { r with crew := { r.crew with queue := queue } } (.offered o))
      | some .aborted => some (s.answer i r (.looked r.crew.queue.capacity s.world.aborted))
      | some .assignment =>
          let (b, reply) := Broker.assignment s.world.broker
          some ((s.setBroker b).answer i r (.assigned reply))
      | some (.pause ps) =>
          let (b, reply) := Broker.pause s.world.broker ps
          some ((s.setBroker b).answer i r (.told reply))
      | some (.resume ps) =>
          let (b, reply) := Broker.resume s.world.broker ps
          some ((s.setBroker b).answer i r (.told reply))
      | some (.sleep span) => some (s.sleep i r span .passed)
      | some .release => some (s.answer i { r with crew := { r.crew with queue := r.crew.queue.abandon } } .passed)
      | some .signal => some (s.answer i r (.flag (!r.givenUp)))

def pollAny? (s : Stage β) : Nat → List Run → Option (Stage β)
  | _, [] => none
  | i, r :: rs =>
      match s.pollOnce? i r with
      | some s => some s
      | none => pollAny? s (i + 1) rs

def workAll (s : Stage β) : Nat → List Run → Stage β
  | _, [] => s
  | i, r :: rs =>
      let b := ({ world := s.world, crew := r.crew : Bench β }).work Bench.steps
      workAll ({ s with world := b.world }.setRun i { r with crew := b.crew }) (i + 1) rs

def earliest (ts : List Nat) : Option Nat := ts.foldl (fun least t => some ((least.map (min t)).getD t)) none

def wakes (s : Stage β) : List Nat :=
  s.runs.flatMap (fun r =>
    (r.poller.asleep.map Prod.fst).toList ++ (({ world := s.world, crew := r.crew : Bench β }).deadline?).toList)

def arriveAt (s : Stage β) (t : Nat) : Stage β := { s with world := { s.world with clock := max t s.world.clock } }

def patience : Nat := 1000000

/-- Goes on until a goal is reached, the time for it is over, or nobody can go on. The goal is looked for when
nobody else can go on before time passes, or when some time has passed all the same. -/
def wait (goal : Stage β → Bool) (limit : Option Nat) : Nat → Nat → Stage β → Stage β
  | 0, _, s => s
  | n + 1, look, s =>
      let s := s.workAll 0 s.runs
      match s.pollAny? 0 s.runs with
      | some s =>
          if s.world.clock < look then wait goal limit n look s
          else if goal s || limit.any (fun l => l ≤ s.world.clock) then s
          else wait goal limit n (s.world.clock + patience) s
      | none =>
          if goal s then s
          else
            match earliest s.wakes, limit with
            | none, none => s
            | none, some l => s.arriveAt l
            | some t, none => wait goal limit n look (s.arriveAt t)
            | some t, some l => if l ≤ t then s.arriveAt l else wait goal limit n look (s.arriveAt t)

def goOn (s : Stage β) (goal : Stage β → Bool) (limit : Option Nat) : Stage β × Bool :=
  let limit := limit.map (fun ms => s.world.clock + ms * Span.millisecond)
  let s := s.wait goal limit Bench.steps (s.world.clock + patience)
  (s, goal s)

def start (s : Stage β) : Stage β × ActionAnswer :=
  match s.listener.start with
  | .error e => (s, .refused e)
  | .ok (l, queue, n) =>
      let (worker, es) := Worker.start l.settings.dispatch
      let (loop, ns) := Ingestion.start l.settings
      let world := ns.foldl (fun w n => w.report (.poll n)) (s.world.takeAll es)
      let run : Run := { poller := { loop := loop }, crew := { worker := worker, queue := queue } }
      ({ s with listener := l, world := { world with pollingEnded := false }, runs := s.runs ++ [run] }.report [n], .done)

def currentIs (p : Run → Bool) (s : Stage β) : Bool := s.current?.all p

def grace : Nat := 1000

def giveUp (s : Stage β) : Stage β :=
  { s with runs := s.runs.dropLast ++ (s.current?.map (fun r => { r with givenUp := true })).toList }

def await (s : Stage β) (timeoutMs : Nat) : Stage β × Bool :=
  match s.listener.awaitStopped with
  | none => (s, true)
  | some l =>
      let s := { s with listener := l }
      match s.goOn (currentIs (fun r => r.pollingEnded && r.workerEnded)) (some timeoutMs) with
      | (s, true) =>
          let failed := s.current?.bind (fun r => match r.crew.worker.phase with
            | .failed f => some f
            | _ => none)
          let (l, drained, ns) := l.waited (.drained failed)
          ({ s with listener := l }.report ns, drained)
      | (s, false) =>
          let (s, observed) :=
            { s with world := { s.world with aborted := true } }.goOn (currentIs Run.workerEnded) (some grace)
          let (l, drained, ns) := l.waited (.timedOut timeoutMs observed)
          ({ s with listener := l }.report ns |>.giveUp, drained)

def processed (s : Stage β) : Nat := (Tally.ofEntries s.world.entries).processed.length

def reach (s : Stage β) (goal : Stage β → Bool) : Stage β × ActionAnswer := ((s.goOn goal none).1, .done)

def act (s : Stage β) : Action → Stage β × ActionAnswer
  | .start => s.start
  | .isRunning => (s, .flag s.listener.isRunning)
  | .requestStop => let (l, ns) := s.listener.requestStop; ({ s with listener := l }.report ns, .done)
  | .await ms => let (s, drained) := s.await ms; ({ s with awaited := true }, .flag drained)
  | .stop ms =>
      let (l, ns) := s.listener.requestStop
      let (s, drained) := ({ s with listener := l }.report ns).await ms
      (s.setBroker (Broker.close s.world.broker), .flag drained)
  | .topic => (s, .text s.listener.settings.topic)
  | .snapshot => (s, .positions s.world.tracker.snapshot)
  | .release n => ({ s with world := s.world.release n }, .done)
  | .untilScript => s.reach (fun s => Feed.exhausted s.world.broker)
  | .untilStarted n => s.reach (fun s => n ≤ s.world.started)
  | .untilParked n => s.reach (fun s => n ≤ Feed.parked s.world.broker)
  | .untilSettled => s.reach (currentIs Run.settled)
  | .untilPollingEnd => s.reach (currentIs Run.pollingEnded)
  | .untilWorkerEnd => s.reach (currentIs Run.workerEnded)
  | .untilProcessed n limit =>
      let (s, ok) := s.goOn (fun s => n ≤ s.processed) (some limit); (s, .flag ok)
  | .untilStartedBy n limit =>
      let (s, ok) := s.goOn (fun s => n ≤ s.world.started) (some limit); (s, .flag ok)

def perform (s : Stage β) : List Action → Stage β × List ActionAnswer
  | [] => (s, [])
  | a :: as =>
      let (s, x) := s.act a
      let (s, xs) := s.perform as
      (s, x :: xs)

end Stage

end StreamTrigger
