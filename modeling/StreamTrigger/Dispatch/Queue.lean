import StreamTrigger.Fault
import StreamTrigger.Record

namespace StreamTrigger

/-- A closed queue takes nothing more but still gives what it holds. An abandoned one has no sender left. -/
structure BatchQueue where
  capacity : Nat
  items : List Batch := []
  closed : Bool := false
  abandoned : Bool := false
  fits : items.length ≤ capacity := by simp

inductive Offer where
  | accepted
  | full
  | closed
deriving DecidableEq, Repr

inductive Take where
  | batch (b : Batch)
  | pending
  | finished
deriving DecidableEq, Repr

namespace BatchQueue

def permits : Nat := 2305843009213693951

def make (capacity : Nat) : Except Fault BatchQueue :=
  if capacity = 0 then .error .noCapacity
  else if permits < capacity then .error .tooManyPermits
  else .ok { capacity := capacity }

def offer (q : BatchQueue) (b : Batch) : BatchQueue × Offer :=
  if q.closed then (q, .closed)
  else if h : q.items.length < q.capacity then
    ({ q with items := q.items ++ [b], fits := by rw [List.length_append]; exact h }, .accepted)
  else (q, .full)

def tryTake (q : BatchQueue) : BatchQueue × Option Batch :=
  match h : q.items with
  | [] => (q, none)
  | b :: bs => ({ q with items := bs, fits := by have := q.fits; simp [h] at this; omega }, some b)

def take (q : BatchQueue) : BatchQueue × Take :=
  match q.tryTake with
  | (q, some b) => (q, .batch b)
  | (q, none) => (q, if q.closed || q.abandoned then .finished else .pending)

def close (q : BatchQueue) : BatchQueue := { q with closed := true }

def discard (q : BatchQueue) : BatchQueue := { q with closed := true, items := [], fits := Nat.zero_le _ }

def abandon (q : BatchQueue) : BatchQueue := { q with abandoned := true }

end BatchQueue

end StreamTrigger
