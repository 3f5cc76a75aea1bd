import StreamTrigger.Dispatch.Accumulator
import StreamTrigger.Listener.Settings

namespace StreamTrigger

/-- Where the loop goes on after a flush that delivered, or found nothing to deliver. -/
inductive Resume where
  | sameInterval (start : Nat)
  | nextInterval
  | close
deriving DecidableEq, Repr

inductive FlushPhase where
  | offering
  | looking
  | assigning
  | pausing (ps : List Partition)
  | polling
  | resting
  | resuming (ps : List Partition) (o : FlushOutcome)
deriving DecidableEq, Repr

inductive IngestionPhase where
  | opening
  | marking
  | checking (start : Nat)
  | timing (start : Nat)
  | polling (start wait : Nat)
  | backingOff (start : Nat)
  | resting (start deadline : Nat)
  | dozing (start deadline : Nat)
  | sleeping (start deadline span : Nat)
  | flushing (after : Resume) (phase : FlushPhase)
  | releasing
  | signalling
  | ended
deriving DecidableEq, Repr

/-- The polling side of a listener, as a machine that asks one question at a time and goes on with the answer;
`flush`, `paused` and `held` belong to the flush under way. What was paused is not known before the first wait, and
may be nothing. -/
structure Ingestion where
  settings : ListenerSettings
  pending : Accumulator := {}
  errors : Nat := 0
  flush : Flush := { batch := [] }
  paused : Option (List Partition) := none
  held : List Record := []
  phase : IngestionPhase := .opening
deriving DecidableEq, Repr

inductive Question where
  | stopRequested
  | now
  | poll (wait : Nat)
  | offer (b : Batch)
  | aborted
  | assignment
  | pause (ps : List Partition)
  | resume (ps : List Partition)
  | sleep (span : Nat)
  | release
  | signal
deriving DecidableEq, Repr

/-- The room of the queue comes with the look at the abort request, for the report. -/
inductive Answer where
  | flag (b : Bool)
  | time (t : Nat)
  | polled (r : Except BrokerError (Option PollEvent))
  | offered (o : Offer)
  | looked (capacity : Nat) (aborted : Bool)
  | assigned (r : Except BrokerError (List Partition))
  | told (r : Except BrokerError Unit)
  | passed

namespace Ingestion

def backoffStep : Nat := 100 * Span.millisecond

def backoffSteps : Nat := 10

def start (s : ListenerSettings) : Ingestion × List PollTask :=
  ({ settings := s }, [.loopStarted s.maxBatch (s.interval / Span.millisecond % 18446744073709551616)])

def goTo (l : Ingestion) (p : IngestionPhase) : Ingestion := { l with phase := p }

/-- A flush that delivered nothing more ends the polling, and is followed by a last one. -/
def resume (l : Ingestion) (delivered : Bool) (r : Resume) : Ingestion :=
  match r, delivered with
  | .close, _ => l.goTo .releasing
  | .sameInterval start, true => l.goTo (.checking start)
  | .nextInterval, true => l.goTo .opening
  | _, false =>
      match l.pending.flush? with
      | none => l.goTo .releasing
      | some f => { l with pending := {}, flush := f, paused := none, held := [], phase := .flushing .close .offering }

def beginFlush (l : Ingestion) (r : Resume) : Ingestion :=
  match l.pending.flush? with
  | none => l.resume true r
  | some f => { l with pending := {}, flush := f, paused := none, held := [], phase := .flushing r .offering }

def concludeFlush (l : Ingestion) (r : Resume) (o : FlushOutcome) : Ingestion × List PollTask :=
  let l := { l with pending := l.held.foldl Accumulator.add l.pending, held := [], paused := none }
  match o with
  | .empty | .enqueued _ => (l.resume true r, [])
  | .aborted n => (l.resume false r, [.flushAborted n])
  | .closed n => (l.resume false r, [.workerGone n])

def endFlush (l : Ingestion) (r : Resume) (o : FlushOutcome) : Ingestion × List PollTask :=
  match l.paused with
  | some (p :: ps) => (l.goTo (.flushing r (.resuming (p :: ps) o)), [])
  | _ => l.concludeFlush r o

def move (l : Ingestion) (r : Resume) : FlushMove → Ingestion × List PollTask
  | .look => (l.goTo (.flushing r .looking), [])
  | .wait f ns =>
      let phase := if l.paused.isNone then FlushPhase.assigning else .polling
      ({ l with flush := f, phase := .flushing r phase }, ns)
  | .done o ns => let (l, more) := l.endFlush r o; (l, ns ++ more)

def stepFlush (l : Ingestion) (r : Resume) (p : FlushPhase) (a : Answer) : Ingestion × List PollTask :=
  match p, a with
  | .offering, .offered o => l.move r (l.flush.offered o)
  | .looking, .looked capacity aborted => l.move r (l.flush.looked capacity aborted)
  | .assigning, .assigned (.error e) =>
      ({ l with paused := some [], phase := .flushing r .polling }, [.assignmentUnreadable e])
  | .assigning, .assigned (.ok []) => ({ l with paused := some [], phase := .flushing r .polling }, [])
  | .assigning, .assigned (.ok ps) => (l.goTo (.flushing r (.pausing ps)), [])
  | .pausing ps, .told (.ok _) =>
      ({ l with paused := some ps, phase := .flushing r .polling }, [.paused ps.length])
  | .pausing _, .told (.error e) => ({ l with paused := some [], phase := .flushing r .polling }, [.pauseFailed e])
  | .polling, .polled (.ok (some (.record x))) =>
      ({ l with held := l.held ++ [x], phase := .flushing r .offering }, [])
  | .polling, .polled (.ok _) => (l.goTo (.flushing r .offering), [])
  | .polling, .polled (.error e) => (l.goTo (.flushing r .resting), [.pausedPollFailed e])
  | .resting, .passed => (l.goTo (.flushing r .offering), [])
  | .resuming ps o, .told reply =>
      let n := match reply with
        | .ok _ => PollTask.resumed ps.length
        | .error e => .resumeFailed e
      let (l, more) := l.concludeFlush r o
      (l, n :: more)
  | _, _ => (l, [])

/-- A record ends a run of errors; an end of a partition and a poll that saw nothing do not. -/
def stepPolled (l : Ingestion) (start : Nat) : Except BrokerError (Option PollEvent) → Ingestion × List PollTask
  | .ok (some (.record r)) =>
      let l := { l with errors := 0, pending := l.pending.add r }
      if l.settings.maxBatch ≤ l.pending.count then (l.beginFlush (.sameInterval start), [])
      else (l.goTo (.checking start), [])
  | .ok (some (.endOfPartition p)) => (l.goTo (.checking start), [.endOfPartition p])
  | .ok none => (l.goTo (.checking start), [])
  | .error e => ({ l with errors := l.errors + 1, phase := .backingOff start }, [.pollFailed (l.errors + 1) e])

def asks (l : Ingestion) : Option Question :=
  match l.phase with
  | .opening => some .stopRequested
  | .marking => some .now
  | .checking _ => some .stopRequested
  | .timing _ => some .now
  | .polling _ wait => some (.poll wait)
  | .backingOff _ => some .now
  | .resting _ _ => some .stopRequested
  | .dozing _ _ => some .now
  | .sleeping _ _ span => some (.sleep span)
  | .flushing _ .offering => some (.offer l.flush.batch)
  | .flushing _ .looking => some .aborted
  | .flushing _ .assigning => some .assignment
  | .flushing _ (.pausing ps) => some (.pause ps)
  | .flushing _ .polling => some (.poll l.settings.retry)
  | .flushing _ .resting => some (.sleep l.settings.retry)
  | .flushing _ (.resuming ps _) => some (.resume ps)
  | .releasing => some .release
  | .signalling => some .signal
  | .ended => none

/-- An answer to another question changes nothing. -/
def step (l : Ingestion) (a : Answer) : Ingestion × List PollTask :=
  match l.phase, a with
  | .opening, .flag stop => if stop then (l.beginFlush .close, []) else (l.goTo .marking, [])
  | .marking, .time now => (l.goTo (.checking now), [])
  | .checking start, .flag stop => if stop then (l.beginFlush .nextInterval, []) else (l.goTo (.timing start), [])
  | .timing start, .time now =>
      let elapsed := now - start
      if l.settings.interval ≤ elapsed then (l.beginFlush .nextInterval, [])
      else (l.goTo (.polling start (min (l.settings.interval - elapsed) l.settings.slice)), [])
  | .polling start _, .polled r => l.stepPolled start r
  | .backingOff start, .time now =>
      let backoff := min (backoffStep * min l.errors backoffSteps) (l.settings.interval - (now - start))
      (l.goTo (.resting start (now + backoff)), [])
  | .resting start deadline, .flag stop => (l.goTo (if stop then .checking start else .dozing start deadline), [])
  | .dozing start deadline, .time now =>
      if deadline ≤ now then (l.goTo (.checking start), [])
      else (l.goTo (.sleeping start deadline (min (deadline - now) l.settings.slice)), [])
  | .sleeping start deadline _, .passed => (l.goTo (.resting start deadline), [])
  | .flushing r p, a => l.stepFlush r p a
  | .releasing, .passed => (l.goTo .signalling, [])
  | .signalling, .flag heard => (l.goTo .ended, (if heard then [] else [.unheard]) ++ [.loopStopped])
  | _, _ => (l, [])

end Ingestion

end StreamTrigger
