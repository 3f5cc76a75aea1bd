import StreamTrigger.Commit.Strategy
import StreamTrigger.Dispatch.Queue
import StreamTrigger.Rehearsal.Double

namespace StreamTrigger

inductive Entry where
  | event (e : Event)
  | sent (answer : Option Offer)
deriving DecidableEq, Repr

/-- Without a commit mode, positions that are handed over go no further. The newest entry comes first in `history`.
Waits are numbered as they begin. The number of a wait for a permit is a ticket in `line`; the first of them, as many as
there are permits, are called. -/
structure World (β : Type) where
  broker : β
  double : CallbackDouble
  commits : Option CommitMode
  tracker : Tracker := {}
  aborted : Bool := false
  clock : Nat := 0
  pollingEnded : Bool := false
  started : Nat := 0
  permits : Nat := 0
  line : List Nat := []
  waits : Nat := 0
  history : List Entry := []

namespace World

variable {β : Type}

def entries (w : World β) : List Entry := w.history.reverse

def forget (w : World β) : World β := { w with history := [] }

def add (w : World β) (e : Event) : World β := { w with history := .event e :: w.history }

def report (w : World β) (n : Notice) : World β := w.add (.noted n)

def addSent (w : World β) (answer : Option Offer) : World β := { w with history := .sent answer :: w.history }

def drawNumber (w : World β) : World β × Nat := ({ w with waits := w.waits + 1 }, w.waits)

def drawTicket (w : World β) : World β × Nat :=
  let (w, ticket) := w.drawNumber
  ({ w with line := w.line ++ [ticket] }, ticket)

def called (w : World β) (ticket : Nat) : Bool := (w.line.take w.permits).contains ticket

def useTicket (w : World β) (ticket : Nat) : World β :=
  { w with line := w.line.erase ticket, permits := w.permits - 1 }

def dropTicket (w : World β) (ticket : Nat) : World β := { w with line := w.line.erase ticket }

def release (w : World β) (n : Nat) : World β := { w with permits := w.permits + n }

variable [Broker β]

def take (w : World β) (e : Event) : World β :=
  let w := w.add e
  match e, w.commits with
  | .started _, _ => { w with started := w.started + 1 }
  | .handed ps, some mode =>
      let c := mode.commit w.tracker w.broker ps
      c.events.foldl add { w with tracker := c.tracker, broker := c.broker }
  | _, _ => w

def takeAll (w : World β) (es : List Event) : World β := es.foldl take w

end World

structure Tally where
  started : Nat := 0
  invocations : Nat := 0
  processed : List (Partition × Int) := []
deriving DecidableEq, Repr

namespace Tally

def count (t : Tally) : Entry → Tally
  | .event (.started _) => { t with started := t.started + 1 }
  | .event (.ended _ (.panicked _)) => t
  | .event (.ended i _) =>
      { t with
        invocations := t.invocations + 1
        processed := t.processed ++ i.records.map (fun r => (r.partition, r.offset)) }
  | _ => t

def ofEntries (es : List Entry) : Tally := es.foldl count {}

end Tally

namespace Entry

def event? : Entry → Option Event
  | event e => some e
  | sent _ => none

def notices (es : List Entry) : List Notice := Event.notices (es.filterMap event?)

def handed (es : List Entry) : List (List Position) :=
  es.filterMap (fun e => match e with
    | event (.handed ps) => some ps
    | _ => none)

end Entry

end StreamTrigger
