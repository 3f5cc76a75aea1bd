import StreamTrigger.Dispatch.Accumulator

namespace StreamTrigger

/-- An end that was let go of does not come back. -/
structure Pipe where
  queue : BatchQueue
  accumulator : Accumulator := {}
  hasSender : Bool := true
  hasReceiver : Bool := true
  aborted : Bool := false

inductive PipeAct where
  | nothing
  | take
  | close
  | discard
  | abort
deriving DecidableEq, Repr

structure Flushed where
  pipe : Pipe
  outcome : FlushOutcome
  taken : List (Option Batch)
  reports : List PollTask

namespace Pipe

def make (capacity sizeHint : Nat) : Except Fault Pipe := do
  let queue ← BatchQueue.make capacity
  let accumulator ← Accumulator.make sizeHint
  return { queue := queue, accumulator := accumulator }

def offer (p : Pipe) (b : Batch) : Pipe × Option Offer :=
  if p.hasSender then
    let (queue, o) := p.queue.offer b
    ({ p with queue := queue }, some o)
  else (p, none)

def tryTake (p : Pipe) : Pipe × Option (Option Batch) :=
  if p.hasReceiver then
    let (queue, b) := p.queue.tryTake
    ({ p with queue := queue }, some b)
  else (p, none)

def take (p : Pipe) : Pipe × Option Take :=
  if p.hasReceiver then
    let (queue, t) := p.queue.take
    ({ p with queue := queue }, some t)
  else (p, none)

def close (p : Pipe) : Pipe := if p.hasReceiver then { p with queue := p.queue.close } else p

def discard (p : Pipe) : Pipe :=
  if p.hasReceiver then { p with queue := p.queue.discard, hasReceiver := false } else p

def abandon (p : Pipe) : Pipe := { p with queue := p.queue.abandon, hasSender := false }

def abort (p : Pipe) : Pipe := { p with aborted := true }

def capacity? (p : Pipe) : Option Nat := if p.hasSender then some p.queue.capacity else none

def add (p : Pipe) (r : Record) : Pipe := { p with accumulator := p.accumulator.add r }

def act (p : Pipe) : PipeAct → Pipe × Option Batch
  | .nothing => (p, none)
  | .take => let (p, b) := p.tryTake; (p, b.join)
  | .close => (p.close, none)
  | .discard => (p.discard, none)
  | .abort => (p.abort, none)

/-- Offers the batch until it is taken in or given up. Behind the last act the abort is requested, so a flush has at
most one more wait than there are acts. -/
def offerUntil (p : Pipe) (f : Flush) : List PipeAct → Nat → Flushed
  | acts, waits =>
      let (queue, o) := p.queue.offer f.batch
      let p := { p with queue := queue }
      match f.offered o with
      | .done outcome ns => ⟨p, outcome, [], ns⟩
      | .wait _ ns => ⟨p, .empty, [], ns⟩
      | .look =>
          match f.looked p.queue.capacity p.aborted, waits with
          | .done outcome ns, _ => ⟨p, outcome, [], ns⟩
          | .wait f ns, waits + 1 =>
              let (p, taken) := p.act (acts.head?.getD .abort)
              let rest := offerUntil p f acts.tail waits
              { rest with taken := taken :: rest.taken, reports := ns ++ rest.reports }
          | _, _ => ⟨p, .empty, [], []⟩

def flush (p : Pipe) (acts : List PipeAct) : Flushed :=
  match p.accumulator.flush? with
  | none => ⟨p, .empty, [], []⟩
  | some f => offerUntil { p with accumulator := {} } f acts (acts.length + 2)

end Pipe

end StreamTrigger
