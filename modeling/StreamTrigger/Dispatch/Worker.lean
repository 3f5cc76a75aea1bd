import StreamTrigger.Dispatch.Lane

namespace StreamTrigger

inductive WorkerPhase where
  | waiting
  | dispatching (d : Dispatch)
  | stopped
  | failed (f : Fault)
deriving DecidableEq, Repr

/-- An abort is seen while the worker waits for a batch and between the turns of a dispatch; a callback that runs is
never cut off in the middle of a turn. -/
structure Worker where
  mode : DispatchMode
  phase : WorkerPhase := .waiting
  batches : Nat := 0
deriving DecidableEq, Repr

/-- The end of the queue is a batch that is not there. -/
inductive WorkerInput where
  | abort
  | received (b : Option Batch)
  | drive (a : Drive)
  | complete
deriving DecidableEq, Repr

namespace Worker

def start (mode : DispatchMode) : Worker × List Event := ({ mode := mode }, [.noted (.work (.started mode))])

def stop (w : Worker) (why : List WorkTask) : Worker × List Event :=
  ({ w with phase := .stopped }, (why ++ [WorkTask.stopped w.batches]).map (fun n => .noted (.work n)))

def step (w : Worker) (a : WorkerInput) : Worker × List Event :=
  match w.phase, a with
  | .waiting, .abort => w.stop [.abortedWaiting]
  | .waiting, .received none => w.stop []
  | .waiting, .received (some b) => ({ w with phase := .dispatching (Dispatch.begin w.mode b) }, [])
  | .dispatching d, .abort => if d.focus.isNone then w.stop [.abortedDispatching] else (w, [])
  | .dispatching d, .drive x =>
      let (d, es) := d.step x
      match d.fault with
      | some f => ({ w with phase := .failed f }, es)
      | none => ({ w with phase := .dispatching d }, es)
  | .dispatching d, .complete =>
      if d.done then ({ w with phase := .waiting, batches := w.batches + 1 }, []) else (w, [])
  | _, _ => (w, [])

def ended (w : Worker) : Bool :=
  match w.phase with
  | .stopped | .failed _ => true
  | _ => false

def fault? (w : Worker) : Option Fault :=
  match w.phase with
  | .failed f => some f
  | _ => none

end Worker

end StreamTrigger
