import StreamTrigger.Dispatch.Grouping
import StreamTrigger.Event

namespace StreamTrigger

structure Lane where
  running : Option Invocation := none
  waiting : List Invocation
deriving DecidableEq, Repr

def Lane.done (l : Lane) : Bool := l.running.isNone && l.waiting.isEmpty

/-- One batch being dispatched, as a machine that is driven from outside. Between lanes any order is possible; a lane
that has the focus keeps it until its callback is not done or all of its invocations are. -/
structure Dispatch where
  mode : DispatchMode
  lanes : List Lane
  focus : Option Nat := none
  fault : Option Fault := none
deriving DecidableEq, Repr

/-- What the scheduler and the callbacks do to a dispatch: a turn goes to a lane, the running callback of the lane
in focus is not done or has ended, or the lane goes on to its next invocation. -/
inductive Drive where
  | turn (lane : Nat)
  | pending
  | ended (o : Outcome)
  | next
deriving DecidableEq, Repr

namespace DispatchMode

/-- One lane for each partition, with an invocation for each record, or one invocation for the whole batch. -/
def plan : DispatchMode → Batch → List Lane
  | single, b => (Batch.groups b).map (fun g => { waiting := g.records.map .single })
  | multi, [] => []
  | multi, b => [{ waiting := [.batch b] }]

end DispatchMode

namespace Invocation

def positions (i : Invocation) : Except Fault (List Position) := Batch.nextPositions i.records

def failed (i : Invocation) (positions : List Position) (failure : String) : WorkTask :=
  match i with
  | single r => .recordFailed r.partition r.offset failure
  | batch rs => .batchFailed rs.length positions failure

/-- Success is only noted of a batch. -/
def completed (i : Invocation) (positions : List Position) : Option WorkTask :=
  match i with
  | single _ => none
  | batch rs => some (.batchCompleted rs.length positions.length)

def reports (i : Invocation) (positions : List Position) (o : Outcome) : List WorkTask :=
  match o.failure? with
  | none => (i.completed positions).toList
  | some failure => [i.failed positions failure]

end Invocation

namespace Dispatch

def begin (mode : DispatchMode) (b : Batch) : Dispatch := { mode := mode, lanes := mode.plan b }

def done (d : Dispatch) : Bool := d.lanes.all Lane.done

def running? (d : Dispatch) : Option Invocation :=
  match d.focus with
  | some i => d.lanes[i]?.bind Lane.running
  | none => none

/-- The positions of an invocation are known before its callback starts; where they do not exist, it never does. -/
def start (d : Dispatch) (i : Nat) (l : Lane) : Dispatch × List Event :=
  match l.waiting with
  | [] => ({ d with focus := none }, [])
  | job :: rest =>
      match job.positions with
      | .error f => ({ d with focus := none, fault := some f }, [])
      | .ok _ => ({ d with lanes := d.lanes.set i ⟨some job, rest⟩, focus := some i }, [.started job])

/-- An ended callback is timed, how it ended is reported, and its positions are handed over in the same step. -/
def finish (d : Dispatch) (i : Nat) (l : Lane) (job : Invocation) (o : Outcome) : Dispatch × List Event :=
  let positions := job.positions.toOption.getD []
  let report := (job.reports positions o).map (fun n => Event.noted (.work n))
  ({ d with lanes := d.lanes.set i { l with running := none }, focus := if l.waiting.isEmpty then none else some i },
    .ended job o :: .noted (.work (.timed d.mode)) :: report ++ [.handed positions])

def step (d : Dispatch) (a : Drive) : Dispatch × List Event :=
  match d.fault, d.focus, a with
  | none, none, .turn i =>
      match d.lanes[i]? with
      | some l => if l.done then (d, []) else if l.running.isSome then ({ d with focus := some i }, []) else d.start i l
      | none => (d, [])
  | none, some _, .pending => if d.running?.isSome then ({ d with focus := none }, []) else (d, [])
  | none, some i, .ended o =>
      match d.lanes[i]? with
      | some l => match l.running with
        | some job => d.finish i l job o
        | none => (d, [])
      | none => (d, [])
  | none, some i, .next =>
      match d.lanes[i]? with
      | some l => if l.running.isNone then d.start i l else (d, [])
      | none => (d, [])
  | _, _, _ => (d, [])

end Dispatch

end StreamTrigger
