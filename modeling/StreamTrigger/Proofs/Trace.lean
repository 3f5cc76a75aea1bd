import StreamTrigger.Event

namespace StreamTrigger

/-- What one who watches a listener sees of its records, in order. -/
inductive Mark where
  | polled (r : Record)
  | queued (b : Batch)
  | dropped (b : Batch)
  | begun (b : Batch)
  | event (e : Event)
deriving DecidableEq, Repr

namespace Event

def given : Event → List Record
  | started i => i.records
  | _ => []

def concluded : Event → List Invocation
  | ended i _ => [i]
  | _ => []

def handedOver : Event → List Position
  | handed ps => ps
  | _ => []

def silent : Event → Bool
  | started _ | ended _ _ | handed _ => false
  | _ => true

variable {es : List Event} (h : ∀ e ∈ es, e.silent)

include h

theorem given_silent : es.flatMap given = [] :=
  List.flatMap_eq_nil_iff.mpr (fun e he => by have := h e he; cases e <;> simp_all [given, silent])

theorem concluded_silent : es.flatMap concluded = [] :=
  List.flatMap_eq_nil_iff.mpr (fun e he => by have := h e he; cases e <;> simp_all [concluded, silent])

theorem handed_silent (ps : List Position) : handed ps ∉ es := fun he => by simpa [silent] using h _ he

end Event

/-- The records of one partition, in their order. -/
def Partition.part (p : Partition) (rs : List Record) : List Record := rs.filter (fun r => r.partition = p)

namespace Partition

@[simp] theorem part_nil (p : Partition) : p.part [] = [] := rfl

@[simp] theorem part_append (p : Partition) (rs ss : List Record) : p.part (rs ++ ss) = p.part rs ++ p.part ss :=
  List.filter_append ..

theorem mem_part {p : Partition} {rs : List Record} {r : Record} : r ∈ p.part rs ↔ r ∈ rs ∧ r.partition = p := by
  simp [part]

theorem part_eq_self {p : Partition} {rs : List Record} (h : ∀ r ∈ rs, r.partition = p) : p.part rs = rs := by
  simpa [part] using h

theorem part_eq_nil {p : Partition} {rs : List Record} (h : ∀ r ∈ rs, r.partition ≠ p) : p.part rs = [] := by
  simpa [part] using h

theorem part_prefix {rs ss : List Record} (p : Partition) (h : rs <+: ss) : p.part rs <+: p.part ss := h.filter _

end Partition

namespace Trace

def polled (ms : List Mark) : List Record := ms.flatMap (fun m => match m with
  | .polled r => [r]
  | _ => [])

def queued (ms : List Mark) : List Batch := ms.flatMap (fun m => match m with
  | .queued b => [b]
  | _ => [])

def dropped (ms : List Mark) : List Batch := ms.flatMap (fun m => match m with
  | .dropped b => [b]
  | _ => [])

def sent (ms : List Mark) : List Batch := ms.flatMap (fun m => match m with
  | .queued b | .dropped b => [b]
  | _ => [])

def begun (ms : List Mark) : List Batch := ms.flatMap (fun m => match m with
  | .begun b => [b]
  | _ => [])

def events (ms : List Mark) : List Event := ms.flatMap (fun m => match m with
  | .event e => [e]
  | _ => [])

def started (ms : List Mark) : List Record := (events ms).flatMap Event.given

def finished (ms : List Mark) : List Invocation := (events ms).flatMap Event.concluded

def completed (ms : List Mark) : List Record := (finished ms).flatMap Invocation.records

variable (ms ns : List Mark)

@[simp] theorem polled_append : polled (ms ++ ns) = polled ms ++ polled ns := List.flatMap_append ..

@[simp] theorem queued_append : queued (ms ++ ns) = queued ms ++ queued ns := List.flatMap_append ..

@[simp] theorem dropped_append : dropped (ms ++ ns) = dropped ms ++ dropped ns := List.flatMap_append ..

@[simp] theorem sent_append : sent (ms ++ ns) = sent ms ++ sent ns := List.flatMap_append ..

@[simp] theorem begun_append : begun (ms ++ ns) = begun ms ++ begun ns := List.flatMap_append ..

@[simp] theorem events_append : events (ms ++ ns) = events ms ++ events ns := List.flatMap_append ..

@[simp] theorem started_append : started (ms ++ ns) = started ms ++ started ns := by simp [started]

@[simp] theorem finished_append : finished (ms ++ ns) = finished ms ++ finished ns := by simp [finished]

@[simp] theorem completed_append : completed (ms ++ ns) = completed ms ++ completed ns := by simp [completed]

section Events

variable (es : List Event)

@[simp] theorem polled_map_event : polled (es.map .event) = [] := by simp [polled, List.flatMap_map]

@[simp] theorem queued_map_event : queued (es.map .event) = [] := by simp [queued, List.flatMap_map]

@[simp] theorem dropped_map_event : dropped (es.map .event) = [] := by simp [dropped, List.flatMap_map]

@[simp] theorem sent_map_event : sent (es.map .event) = [] := by simp [sent, List.flatMap_map]

@[simp] theorem begun_map_event : begun (es.map .event) = [] := by simp [begun, List.flatMap_map]

@[simp] theorem events_map_event : events (es.map .event) = es := by simp [events, List.flatMap_map]

@[simp] theorem started_map_event : started (es.map .event) = es.flatMap Event.given := by simp [started]

@[simp] theorem finished_map_event : finished (es.map .event) = es.flatMap Event.concluded := by simp [finished]

@[simp] theorem completed_map_event :
    completed (es.map .event) = (es.flatMap Event.concluded).flatMap Invocation.records := by simp [completed]

end Events

section Begun

variable (bs : List Batch)

@[simp] theorem polled_map_begun : polled (bs.map .begun) = [] := by simp [polled, List.flatMap_map]

@[simp] theorem queued_map_begun : queued (bs.map .begun) = [] := by simp [queued, List.flatMap_map]

@[simp] theorem dropped_map_begun : dropped (bs.map .begun) = [] := by simp [dropped, List.flatMap_map]

@[simp] theorem sent_map_begun : sent (bs.map .begun) = [] := by simp [sent, List.flatMap_map]

@[simp] theorem begun_map_begun : begun (bs.map .begun) = bs := by simp [begun, List.flatMap_map]

@[simp] theorem events_map_begun : events (bs.map .begun) = [] := by simp [events, List.flatMap_map]

end Begun

theorem mem_events {e : Event} : e ∈ events ms ↔ .event e ∈ ms := by
  induction ms with
  | nil => simp [events]
  | cons m ms ih => cases m <;> simp_all [events]

theorem sent_eq_queued (h : dropped ms = []) : sent ms = queued ms := by
  induction ms with
  | nil => rfl
  | cons m ms ih =>
      have ih := ih (by simp_all [dropped])
      cases m <;> simp_all [sent, queued, dropped]

theorem queued_sublist_sent : (queued ms).Sublist (sent ms) := by
  induction ms with
  | nil => exact .slnil
  | cons m ms ih =>
      cases m with
      | queued b => exact .cons_cons b ih
      | dropped b => exact .cons b ih
      | _ => exact ih

theorem dropped_sublist_sent : (dropped ms).Sublist (sent ms) := by
  induction ms with
  | nil => exact .slnil
  | cons m ms ih =>
      cases m with
      | queued b => exact .cons b ih
      | dropped b => exact .cons_cons b ih
      | _ => exact ih

end Trace

end StreamTrigger
