import StreamTrigger.Dispatch.Queue
import StreamTrigger.Telemetry.Notice

namespace StreamTrigger

inductive FlushOutcome where
  | empty
  | enqueued (records : Nat)
  | aborted (records : Nat)
  | closed (records : Nat)
deriving DecidableEq, Repr

/-- A flush offers its batch, and after each refusal for want of room it looks at the abort request before it waits
and offers again. -/
structure Flush where
  batch : Batch
  announced : Bool := false
deriving DecidableEq, Repr

inductive FlushMove where
  | look
  | wait (f : Flush) (ns : List PollTask)
  | done (o : FlushOutcome) (ns : List PollTask)
deriving Repr

namespace Flush

def size (f : Flush) : Nat := f.batch.length

def offered (f : Flush) : Offer → FlushMove
  | .accepted => .done (.enqueued f.size) [.batchQueued f.size]
  | .closed => .done (.closed f.size) [.batchRefused f.size]
  | .full => .look

/-- Only an abort ends the wait for room. -/
def looked (f : Flush) (capacity : Nat) (aborted : Bool) : FlushMove :=
  if aborted then .done (.aborted f.size) [.batchAborted f.size]
  else .wait { f with announced := true } (if f.announced then [] else [.queueFull f.size capacity])

end Flush

structure Accumulator where
  pending : Batch := []
deriving DecidableEq, Repr

namespace Accumulator

def make (sizeHint : Nat) : Except Fault Accumulator :=
  if Word.greatest < (sizeHint * Record.footprint : Nat) then .error .allocationTooLarge else .ok {}

def add (a : Accumulator) (r : Record) : Accumulator := ⟨a.pending ++ [r]⟩

def count (a : Accumulator) : Nat := a.pending.length

def flush? (a : Accumulator) : Option Flush := if a.pending.isEmpty then none else some { batch := a.pending }

end Accumulator

end StreamTrigger
