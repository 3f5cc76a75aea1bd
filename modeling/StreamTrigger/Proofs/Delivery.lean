import StreamTrigger.Proofs.Pipeline
import StreamTrigger.Proofs.Working

namespace StreamTrigger

open Trace

namespace Ingestion

theorem begun_marks (l : Ingestion) (a : Answer) : begun (l.marks a) = [] := by
  unfold marks
  split <;> rfl

theorem events_marks (l : Ingestion) (a : Answer) : events (l.marks a) = [] := by
  unfold marks
  split <;> rfl

end Ingestion

namespace BatchQueue

theorem offer_cases (q : BatchQueue) (b : Batch) :
    (q.closed = false ∧ ∃ hf, q.offer b = ({ q with items := q.items ++ [b], fits := hf }, .accepted)) ∨
      q.offer b = (q, .full) ∨ q.closed ∧ q.offer b = (q, .closed) := by
  rw [offer]
  split
  · next hc => exact .inr (.inr ⟨hc, rfl⟩)
  · next hc =>
      split
      · next hf => exact .inl ⟨by simpa using hc, by rw [List.length_append]; exact hf, rfl⟩
      · exact .inr (.inl rfl)

theorem tryTake_cases (q : BatchQueue) :
    q.items = [] ∧ q.tryTake = (q, none) ∨
      ∃ b q', q.items = b :: q'.items ∧ q'.capacity = q.capacity ∧ q'.closed = q.closed ∧ q'.abandoned = q.abandoned ∧
        q.tryTake = (q', some b) := by
  rw [tryTake]
  split
  · next h => exact .inl ⟨h, rfl⟩
  · next b bs h => exact .inr ⟨b, { q with items := bs, fits := _ }, h, rfl, rfl, rfl, rfl⟩

theorem take_cases (q : BatchQueue) :
    q.items = [] ∧ q.take = (q, if q.closed || q.abandoned then .finished else .pending) ∨
      ∃ b q', q.items = b :: q'.items ∧ q'.capacity = q.capacity ∧ q'.closed = q.closed ∧ q'.abandoned = q.abandoned ∧
        q.take = (q', .batch b) := by
  rcases q.tryTake_cases with ⟨hitems, ht⟩ | ⟨b, q', hitems, hcapacity, hclosed, habandoned, ht⟩
  · exact .inl ⟨hitems, by rw [take, ht]⟩
  · exact .inr ⟨b, q', hitems, hcapacity, hclosed, habandoned, by rw [take, ht]⟩

theorem take_batch {q q' : BatchQueue} {b : Batch} (h : q.take = (q', .batch b)) :
    q.items = b :: q'.items ∧ q'.closed = q.closed := by
  rw [take, tryTake] at h
  split at h
  · next q₁ b₁ heq =>
      simp only [Prod.mk.injEq, Take.batch.injEq] at h
      obtain ⟨rfl, rfl⟩ := h
      split at heq
      · simp at heq
      · next hq =>
          simp only [Prod.mk.injEq, Option.some.injEq] at heq
          obtain ⟨rfl, rfl⟩ := heq
          exact ⟨hq, rfl⟩
  · simp only [Prod.mk.injEq] at h
    split at h <;> simp at h

end BatchQueue

namespace Pipeline

variable {β : Type}

/-- The records on their way, from the polls to the dispatch. What is lost with the queue was the last in line. -/
structure Orderly (s : Pipeline β) : Prop where
  loaded : polled s.marks = (sent s.marks).flatten ++ s.loop.load
  inLine : ∃ lost, queued s.marks = begun s.marks ++ s.taken.toList ++ s.queue.items ++ lost ∧ (lost ≠ [] → s.queue.closed)
  gap : ∃ tail, sent s.marks = begun s.marks ++ tail ∧ (dropped s.marks).Sublist tail
  broken : dropped s.marks ≠ [] → s.listener.abortRequested ∨ s.worker.ended
  closed : s.queue.closed → s.worker.ended

theorem Orderly.congr {s s' : Pipeline β} (h : Orderly s) (es : List Event) (hm : s'.marks = s.marks ++ es.map .event)
    (hl : s'.loop = s.loop) (ht : s'.taken = s.taken) (hq : s'.queue = s.queue)
    (ha : s.listener.abortRequested → s'.listener.abortRequested) (hw : s.worker.ended → s'.worker.ended) :
    Orderly s' where
  loaded := by simpa [hm, hl] using h.loaded
  inLine := by simpa [hm, ht, hq] using h.inLine
  gap := by simpa [hm] using h.gap
  broken hd := (h.broken (by simpa [hm] using hd)).imp ha hw
  closed hc := hw (h.closed (by rwa [hq] at hc))

theorem ended_step {w : Worker} (h : w.ended) (a : WorkerInput) : (w.step a).1.ended := by rw [w.step_ended h]; exact h

theorem Orderly.input {s : Pipeline β} (h : Orderly s) (a : WorkerInput) : Orderly (s.input a) :=
  h.congr (s.worker.step a).2 rfl rfl rfl rfl id (ended_step · a)

/-- A batch begins only while nothing has been dropped, so it is the first of those that were sent and not begun. -/
theorem Orderly.look {s : Pipeline β} (h : Orderly s) : Orderly s.look := by
  rw [Pipeline.look]
  split
  · exact h
  · next hw =>
      split
      · exact h.input .abort
      · next ha =>
          have hnone : dropped s.marks = [] := by
            by_contra hd
            rcases h.broken hd with hb | hb
            · exact ha hb
            · simp [hb] at hw
          refine ⟨?loaded, ?inLine, ?gap, ?broken, h.closed⟩
          case loaded => simpa using h.loaded
          case inLine => simpa using h.inLine
          case gap =>
            obtain ⟨lost, hline, -⟩ := h.inLine
            refine ⟨s.queue.items ++ lost, ?_, ?_⟩
            · simp [sent_eq_queued _ hnone, hline]
            · simp [hnone]
          case broken =>
            intro hd
            simp [hnone] at hd

theorem Orderly.receive {s : Pipeline β} (h : Orderly s) (hn : s.attending → s.taken = none) : Orderly s.receive := by
  rw [Pipeline.receive]
  split
  · next ha hp =>
      split
      · next q b hq =>
          obtain ⟨hitems, hclosed⟩ := BatchQueue.take_batch hq
          have hs : Orderly { s with queue := q, taken := some b, attending := false } := by
            refine ⟨h.loaded, ?_, h.gap, h.broken, fun hc => h.closed (hclosed ▸ hc)⟩
            simpa [hn ha, hitems, hclosed] using h.inLine
          exact hs.input _
      · exact h.congr [] (by simp) rfl rfl rfl id id
      · exact h.input _
  · exact h

theorem Orderly.leave {s : Pipeline β} (h : Orderly s) : Orderly s.leave := by
  rw [Pipeline.leave]
  split
  · next hw =>
      obtain ⟨lost, hline, -⟩ := h.inLine
      exact ⟨h.loaded, ⟨s.queue.items ++ lost, by simpa [BatchQueue.discard] using hline, fun _ => rfl⟩, h.gap, h.broken,
        fun _ => hw⟩
  · exact h

section Reply

variable [Broker β] (s : Pipeline β) (now : Nat) (heard : Bool) (q : Question)

@[simp] theorem reply_listener : (s.reply now heard q).1.listener = s.listener := by cases q <;> rfl

@[simp] theorem reply_loop : (s.reply now heard q).1.loop = s.loop := by cases q <;> rfl

@[simp] theorem reply_worker : (s.reply now heard q).1.worker = s.worker := by cases q <;> rfl

@[simp] theorem reply_taken : (s.reply now heard q).1.taken = s.taken := by cases q <;> rfl

@[simp] theorem reply_attending : (s.reply now heard q).1.attending = s.attending := by cases q <;> rfl

@[simp] theorem reply_call : (s.reply now heard q).1.call = s.call := by cases q <;> rfl

@[simp] theorem reply_tracker : (s.reply now heard q).1.tracker = s.tracker := by cases q <;> rfl

@[simp] theorem reply_marks : (s.reply now heard q).1.marks = s.marks := by cases q <;> rfl

@[simp] theorem reply_closed : (s.reply now heard q).1.queue.closed = s.queue.closed := by
  cases q with
  | offer b => rcases s.queue.offer_cases b with ⟨-, hf, ho⟩ | ho | ⟨-, ho⟩ <;> simp [reply, ho]
  | _ => rfl

variable {q}

/-- An answer puts a batch into an open queue, or leaves the queue as it is; then it may have one dropped, for an abort
or because the queue is closed. -/
theorem reply_cases (hq : s.loop.asks = some q) :
    (∃ b, s.queue.closed = false ∧ (s.reply now heard q).1.queue.items = s.queue.items ++ [b] ∧
        queued (s.loop.marks (s.reply now heard q).2) = [b] ∧ dropped (s.loop.marks (s.reply now heard q).2) = []) ∨
      (s.reply now heard q).1.queue.items = s.queue.items ∧ queued (s.loop.marks (s.reply now heard q).2) = [] ∧
        (dropped (s.loop.marks (s.reply now heard q).2) ≠ [] → s.listener.abortRequested ∨ s.queue.closed) := by
  cases q with
  | offer b =>
      rcases s.queue.offer_cases b with ⟨hc, hf, ho⟩ | ho | ⟨hc, ho⟩
      · exact .inl ⟨b, hc, by simp [reply, ho, Ingestion.marks, hq, queued, dropped]⟩
      · exact .inr (by simp [reply, ho, Ingestion.marks, hq, queued, dropped])
      · exact .inr ⟨by simp [reply, ho], by simp [reply, ho, Ingestion.marks, hq, queued], fun _ => .inr hc⟩
  | poll wait =>
      refine .inr ⟨rfl, ?_⟩
      rcases hp : Broker.poll s.broker wait with ⟨b, _ | _ | _ | _⟩ <;>
        simp [reply, hp, Ingestion.marks, hq, queued, dropped]
  | aborted =>
      refine .inr ⟨rfl, ?_⟩
      cases ha : s.listener.abortRequested <;> simp [reply, ha, Ingestion.marks, hq, queued, dropped]
  | release => exact .inr (by simp [reply, Ingestion.marks, hq, queued, dropped, BatchQueue.abandon])
  | _ => exact .inr (by simp [reply, Ingestion.marks, hq, queued, dropped])

end Reply

section Requests

variable [Broker β]

def Move.request (l : Listener) : Move β → Listener
  | .requestStop => l.requestStop.1
  | .abort => { l with abortRequested := true }
  | _ => l

theorem listener_move (s : Pipeline β) (m : Move β) : (s.move m).listener = m.request s.listener := by
  cases m with
  | ask now heard =>
      simp only [Pipeline.move, Pipeline.ask]
      split
      · rfl
      · simp [hear, Move.request]
  | look =>
      simp only [Pipeline.move, Pipeline.look]
      split
      · rfl
      · split <;> rfl
  | receive =>
      simp only [Pipeline.move, Pipeline.receive]
      split
      · split <;> rfl
      · rfl
  | drive a =>
      simp only [Pipeline.move, Pipeline.drive]
      split <;> rfl
  | complete =>
      simp only [Pipeline.move, Pipeline.complete]
      split <;> rfl
  | rest =>
      simp only [Pipeline.move, Pipeline.rest]
      split <;> rfl
  | leave =>
      simp only [Pipeline.move, Pipeline.leave]
      split <;> rfl
  | commit | requestStop | abort | elsewhere f => rfl

end Requests

theorem Orderly.ask [Broker β] {s : Pipeline β} (h : Orderly s) (now : Nat) (heard : Bool) :
    Orderly (s.ask now heard) := by
  rw [Pipeline.ask]
  split
  · exact h
  · next q hq =>
      have hcases := s.reply_cases now heard hq
      have hload := (s.loop.kept_step (s.reply now heard q).2).load
      have hbegun := s.loop.begun_marks (s.reply now heard q).2
      have hsub := dropped_sublist_sent (s.loop.marks (s.reply now heard q).2)
      refine ⟨?loaded, ?inLine, ?gap, ?broken, ?closed⟩
      case loaded =>
        simp only [hear, reply_marks, reply_loop, polled_append, sent_append, List.flatten_append, List.append_assoc]
        rw [h.loaded, List.append_assoc, hload]
      case inLine =>
        obtain ⟨lost, hline, hlost⟩ := h.inLine
        refine ⟨lost, ?_, by simpa [hear] using hlost⟩
        simp only [hear, reply_marks, reply_loop, reply_taken, begun_append, queued_append, hbegun, hline]
        rcases hcases with ⟨b, hopen, hitems, hqueued, -⟩ | ⟨hitems, hqueued, -⟩
        · -- an open queue has lost nothing
          have hl : lost = [] := by
            by_contra hl
            simp [hopen] at hlost
            exact hl hlost
          simp [hitems, hqueued, hl]
        · simp [hitems, hqueued]
      case gap =>
        obtain ⟨tail, ht, hd⟩ := h.gap
        refine ⟨tail ++ sent (s.loop.marks (s.reply now heard q).2), ?_, ?_⟩
        · simp [hear, ht, hbegun]
        · simpa [hear] using hd.append hsub
      case broken =>
        intro hd
        simp only [hear, reply_listener, reply_worker, reply_marks, reply_loop, dropped_append] at hd ⊢
        by_cases hn : dropped s.marks = []
        · rcases hcases with ⟨b, -, -, -, hnone⟩ | ⟨-, -, hbroken⟩
          · simp [hn, hnone] at hd
          · exact (hbroken (by simpa [hn] using hd)).imp_right h.closed
        · exact h.broken hn
      case closed =>
        intro hc
        simp only [hear, reply_worker]
        exact h.closed (by simpa [hear] using hc)

end Pipeline

end StreamTrigger
