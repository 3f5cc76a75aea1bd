import StreamTrigger.Dispatch.Worker
import StreamTrigger.Rehearsal.World

namespace StreamTrigger

structure Errand where
  hurdles : List Hurdle
  outcome : Outcome
  number : Option Nat := none
  deadline : Option Nat := none
deriving Repr

/-- What the worker gets in one turn of its own: each batch, each permit and each rest that is over takes one unit of this
credit, and a lane that has none left to spend is deferred. -/
def Crew.allowance : Nat := 128

/-- `ready` holds the lanes that wait for a turn, `again` tells whether the dispatch wants another poll of itself, and
`held` is the lane whose callback keeps the thread. Of the `deferred` lanes, the last to be deferred comes first. -/
structure Crew where
  worker : Worker
  queue : BatchQueue
  keepsSender : Bool := false
  heedsAbort : Bool := true
  errands : Table Nat Errand := Table.empty
  ready : List Nat := []
  again : Bool := false
  held : Option Nat := none
  credit : Nat := Crew.allowance
  deferred : List Nat := []

structure Bench (β : Type) where
  world : World β
  crew : Crew

inductive Leave where
  | done
  | waiting
  | yielded
  | deferred
  | holding
deriving DecidableEq, Repr

def Dispatch.unfinished (d : Dispatch) : List Nat :=
  (List.range d.lanes.length).filter (fun i => (d.lanes[i]?.map (fun l => !l.done)).getD false)

namespace Crew

def dispatch? (c : Crew) : Option Dispatch :=
  match c.worker.phase with
  | .dispatching d => some d
  | _ => none

def ended (c : Crew) : Bool := c.worker.ended

def fewLanes : Nat := 30

end Crew

namespace Errand

variable {β : Type}

def passable (e : Errand) (w : World β) : Bool :=
  match e.hurdles with
  | [] => true
  | .yield _ :: _ => true
  | .permit :: _ => e.number.all w.called
  | .rest _ :: _ => e.deadline.all (fun t => t ≤ w.clock)
  | .pollingEnd :: _ => w.pollingEnded
  | .never :: _ => false

end Errand

namespace Bench

variable {β : Type} [Broker β]

def input (b : Bench β) (a : WorkerInput) : Bench β :=
  let (worker, es) := b.crew.worker.step a
  ⟨b.world.takeAll es, { b.crew with worker := worker }⟩

def drive (b : Bench β) (a : Drive) : Bench β := b.input (.drive a)

def setErrand (b : Bench β) (lane : Nat) (e : Errand) : Bench β :=
  { b with crew := { b.crew with errands := b.crew.errands.insert lane e } }

def send (b : Bench β) (batch : Batch) : Bench β :=
  if b.crew.keepsSender then
    let (queue, answer) := b.crew.queue.offer batch
    ⟨b.world.addSent (some answer), { b.crew with queue := queue }⟩
  else { b with world := b.world.addSent none }

def launch (b : Bench β) (lane : Nat) (i : Invocation) : Bench β :=
  let p := b.world.double.plan i
  let b := { b with world := b.world.takeAll (p.reports.map (fun n => .noted (.work n))) }
  let b := p.sends.foldl send b
  let b := if p.dropsSender && b.crew.keepsSender then
      { b with crew := { b.crew with keepsSender := false, queue := b.crew.queue.abandon } }
    else b
  let b := if p.cancels then { b with world := { b.world with aborted := true } } else b
  b.setErrand lane { hurdles := p.hurdles, outcome := p.outcome }

def spend (b : Bench β) : Bench β := { b with crew := { b.crew with credit := b.crew.credit - 1 } }

def renew (b : Bench β) : Bench β := { b with crew := { b.crew with credit := Crew.allowance } }

/-- The first hurdle of a callback, with the way in which it stops at it, if it does. The end of a rest is fixed when
the callback comes to it, and no rest is so short that it is over at once. -/
def cross (b : Bench β) (lane : Nat) (e : Errand) (h : Hurdle) (rest : List Hurdle) : Bench β × Option Leave :=
  let e' : Errand := { e with hurdles := rest, number := none, deadline := none }
  match h with
  | .yield 0 => (b.setErrand lane e', none)
  | .yield (n + 1) => (b.setErrand lane { e with hurdles := .yield n :: rest }, some .yielded)
  | .permit =>
      if b.crew.credit = 0 then (b, some .deferred)
      else
        let (w, ticket) := match e.number with
          | some t => (b.world, t)
          | none => b.world.drawTicket
        if w.called ticket then ({ b with world := w.useTicket ticket }.spend.setErrand lane e', none)
        else ({ b with world := w }.setErrand lane { e with number := some ticket }, some .waiting)
  | .rest span =>
      let deadline := e.deadline.getD (b.world.clock + span)
      let e := { e with deadline := some deadline }
      if b.crew.credit = 0 then (b.setErrand lane e, some .deferred)
      else
        match e.number with
        | none =>
            let (w, number) := b.world.drawNumber
            ({ b with world := w }.setErrand lane { e with number := some number }, some .waiting)
        | some _ =>
            if deadline ≤ b.world.clock then (b.spend.setErrand lane e', none) else (b, some .waiting)
  | .pollingEnd => if b.world.pollingEnded then (b.setErrand lane e', none) else (b, some .holding)
  | .never => (b, some .waiting)

def serve (lane : Nat) : Nat → Bench β → Bench β × Leave
  | 0, b => (b, .holding)
  | n + 1, b =>
      match b.crew.dispatch? with
      | none => (b, .done)
      | some d =>
          match d.running?, b.crew.errands.get? lane with
          | none, _ => if d.focus.isSome then serve lane n (b.drive .next) else (b, .done)
          | some i, none => serve lane n (b.launch lane i)
          | some _, some e =>
              match e.hurdles with
              | [] =>
                  let b := { b with crew := { b.crew with errands := b.crew.errands.erase lane } }
                  serve lane n (b.drive (.ended e.outcome))
              | h :: rest =>
                  match b.cross lane e h rest with
                  | (b, none) => serve lane n b
                  | (b, some .holding) => (b, .holding)
                  | (b, some leave) => (b.drive .pending, leave)

def visit (b : Bench β) (fuel lane : Nat) : Bench β × Leave :=
  if b.crew.held.isSome then serve lane fuel { b with crew := { b.crew with held := none } }
  else serve lane fuel (b.drive (.turn lane))

def setReady (b : Bench β) (ready : List Nat) : Bench β := { b with crew := { b.crew with ready := ready } }

def askAgain (b : Bench β) : Bench β := { b with crew := { b.crew with again := true } }

def hold (b : Bench β) (lane : Nat) (ready : List Nat) : Bench β :=
  { b with crew := { b.crew with held := some lane, ready := lane :: ready } }

def pollFew (fuel : Nat) : Nat → Bench β → Bench β
  | 0, b => b
  | n + 1, b =>
      match b.crew.ready with
      | [] => b
      | lane :: ready =>
          match (b.setReady ready).visit fuel lane with
          | (b, .holding) => b.hold lane ready
          | (b, .yielded) => pollFew fuel n b.askAgain
          | (b, .deferred) => pollFew fuel n b.askAgain
          | (b, _) => pollFew fuel n b

def putOff (b : Bench β) (lane : Nat) : Leave → Bench β
  | .yielded => b.setReady (b.crew.ready ++ [lane])
  | .deferred => { b with crew := { b.crew with deferred := lane :: b.crew.deferred } }
  | _ => b

/-- Lanes that yield go to the end of the line, those that are deferred out of it. The poll ends after two yields, or
when as many lanes as there were have had a turn, counted from the last lane that came to its end. -/
def pollMany (fuel : Nat) : Nat → (turns yields lanes : Nat) → Bench β → Bench β
  | 0, _, _, _, b => b
  | n + 1, turns, yields, lanes, b =>
      match b.crew.ready with
      | [] => b
      | lane :: ready =>
          match (b.setReady ready).visit fuel lane with
          | (b, .holding) => b.hold lane ready
          | (b, .done) => pollMany fuel n 0 0 (lanes - 1) b
          | (b, leave) =>
              let b := b.putOff lane leave
              let yields := if leave = .yielded then yields + 1 else yields
              if 2 ≤ yields || lanes ≤ turns + 1 then b.askAgain
              else pollMany fuel n (turns + 1) yields lanes b

def passable (b : Bench β) (lanes : List Nat) : List Nat :=
  lanes.filter (fun i => !b.crew.deferred.contains i && (b.crew.errands.get? i).all (fun e => e.passable b.world))

def inOrder (b : Bench β) (lanes : List Nat) : List Nat :=
  let number (i : Nat) : Nat := ((b.crew.errands.get? i).bind Errand.number).getD 0
  lanes.mergeSort (fun i j => number i ≤ number j)

def readmit (b : Bench β) : Bench β :=
  { b with crew := { b.crew with ready := b.crew.ready ++ b.crew.deferred, deferred := [] } }

def poll (fuel : Nat) (b : Bench β) : Bench β :=
  match b.crew.dispatch? with
  | none => b
  | some d =>
      let few := d.lanes.length ≤ Crew.fewLanes
      let ready := if b.crew.held.isSome then b.crew.ready
        else if few then d.unfinished
        else b.crew.ready ++ b.inOrder ((b.passable d.unfinished).filter (fun i => !b.crew.ready.contains i))
      let b := { b with crew := { b.crew with ready := ready, again := false } }
      let b := if few then pollFew fuel fuel b else pollMany fuel fuel 0 0 d.unfinished.length b
      if (b.crew.dispatch?.map Dispatch.done).getD false then b.input .complete
      else if b.crew.held.isSome then b
      else b.renew

def disband (b : Bench β) : Bench β :=
  let tickets := b.crew.errands.entries.filterMap (fun e => e.2.number)
  ⟨tickets.foldl World.dropTicket b.world,
    { b.crew with
      queue := b.crew.queue.discard, errands := Table.empty, ready := [], again := false, held := none, deferred := [] }⟩

/-- The worker goes on until it waits for someone else. Deferred lanes are let in again when no other lane can go on. -/
def work : Nat → Bench β → Bench β
  | 0, b => b
  | n + 1, b =>
      if b.crew.ended then b.disband
      else
        match b.crew.held, b.crew.worker.phase with
        | some _, _ => if b.world.pollingEnded then work n (b.poll n) else b
        | none, .waiting =>
            if b.world.aborted && b.crew.heedsAbort then work n (b.input .abort)
            else if b.crew.credit = 0 then work n b.renew
            else
              match b.crew.queue.take with
              | (_, .pending) => b.renew
              | (_, .finished) => work n (b.input (.received none))
              | (q, .batch x) =>
                  let b := { b with crew := { b.crew with queue := q, ready := [], deferred := [] } }
                  work n (b.input (.received (some x))).spend.askAgain
        | none, .dispatching d =>
            if b.world.aborted && b.crew.heedsAbort then work n (b.input .abort)
            else if b.crew.credit = 0 then work n b.renew
            else if b.crew.again || !(b.passable d.unfinished).isEmpty then work n (b.poll n)
            else if !b.crew.deferred.isEmpty then work n (b.readmit.poll n)
            else b
        | none, _ => b

def deadline? (b : Bench β) : Option Nat :=
  (b.crew.errands.entries.filterMap (fun e => e.2.deadline)).foldl
    (fun least t => some ((least.map (min t)).getD t)) none

def steps : Nat := 1000000000

def workUntil (limit : Option Nat) : Nat → Bench β → Bench β
  | 0, b => b
  | n + 1, b =>
      let b := b.work steps
      if b.crew.ended then b
      else
        match b.deadline? with
        | none => b
        | some t =>
            if limit.any (fun l => l < t) then b
            else workUntil limit n { b with world := { b.world with clock := max t b.world.clock } }

end Bench

namespace World

variable {β : Type} [Broker β]

def dispatch (w : World β) (mode : DispatchMode) (batch : Batch) : World β × Option Fault :=
  let queue : BatchQueue := { capacity := 1, items := [], fits := Nat.zero_le 1 }
  let worker : Worker := { mode := mode, phase := .dispatching (Dispatch.begin mode batch) }
  let crew : Crew := { worker := worker, queue := queue, heedsAbort := false, again := true }
  let b := ({ world := w, crew := crew : Bench β }).workUntil none Bench.steps
  (b.world, b.crew.worker.fault?)

def employ (w : World β) (mode : DispatchMode) (queue : BatchQueue) (keepsSender : Bool) (limit : Nat) :
    Except Fault (Bench β) :=
  let (worker, es) := Worker.start mode
  let queue := if keepsSender then queue else queue.abandon
  let crew : Crew := { worker := worker, queue := queue, keepsSender := keepsSender }
  let b := ({ world := w.takeAll es, crew := crew : Bench β }).workUntil (some (w.clock + limit)) Bench.steps
  match b.crew.worker.fault? with
  | some f => .error f
  | none => .ok (if b.crew.ended then b else b.disband)

end World

end StreamTrigger
