import StreamTrigger.Proofs.AtLeastOnce

namespace StreamTrigger

open Trace

def Event.apart (e : Event) : Prop := e.granted = [] ∧ e.submitted = []

namespace Dispatch

theorem apart_endEvents (d : Dispatch) (job : Invocation) (o : Outcome) : ∀ e ∈ d.endEvents job o, e.apart := by
  intro e he
  rcases List.mem_append.mp he with he | he
  · rcases List.mem_cons.mp he with rfl | he
    · exact ⟨rfl, rfl⟩
    rcases List.mem_cons.mp he with rfl | he
    · exact ⟨rfl, rfl⟩
    obtain ⟨n, hn, rfl⟩ := List.mem_map.mp he
    rcases Invocation.mem_reports hn with ⟨failure, rfl⟩ | hn
    · cases job <;> exact ⟨rfl, rfl⟩
    · cases job <;> cases hn
      exact ⟨rfl, rfl⟩
  · obtain rfl := List.mem_singleton.mp he
    exact ⟨rfl, rfl⟩

theorem apart_step (d : Dispatch) (a : Drive) : ∀ e ∈ (d.step a).2, e.apart := by
  have he := d.step_effect a
  generalize d.step a = r at he ⊢
  obtain ⟨d', es⟩ := r
  cases he with
  | quiet | faults => simp
  | starts i l job rest => simp [Event.apart, Event.granted, Event.submitted]
  | finishes i l job o => exact d.apart_endEvents job o

end Dispatch

theorem Worker.apart_step (w : Worker) (a : WorkerInput) : ∀ e ∈ (w.step a).2, e.apart := by
  have he := w.step_effect a
  generalize w.step a = r at he ⊢
  obtain ⟨w', es⟩ := r
  cases he with
  | idle | begins | completes => simp
  | drives d x => exact d.apart_step x
  | ends => simp [Event.apart, Event.granted, Event.submitted]
  | aborts why hwhy =>
      rcases hwhy with rfl | rfl <;> simp [Event.apart, Event.granted, Event.submitted]

namespace Pipeline

variable {β : Type}

/-- The positions that the tracker granted, and those that the broker was given, as they came. -/
def granted (s : Pipeline β) : List Position := (events s.marks).flatMap Event.granted

def received (s : Pipeline β) : List Position := (events s.marks).flatMap Event.submitted

structure Committing (s : Pipeline β) : Prop where
  climb : ∀ p : Partition, (p.offsets s.granted).Pairwise (· < ·)
  below : ∀ p : Partition, ∀ o ∈ p.offsets s.granted, o ≤ s.tracker.mark p
  inTurn : s.received ++ s.call.claimed = s.granted

theorem Committing.congr {s s' : Pipeline β} (h : Committing s) (ns : List Mark) (hm : s'.marks = s.marks ++ ns)
    (hn : ∀ e ∈ events ns, e.apart) (ht : s'.tracker = s.tracker) (hc : s'.call.claimed = s.call.claimed) :
    Committing s' := by
  have hg : s'.granted = s.granted := by
    have hnone := List.flatMap_eq_nil_iff.mpr (fun e he => (hn e he).1)
    simp [granted, hm, hnone]
  have hr : s'.received = s.received := by
    have hnone := List.flatMap_eq_nil_iff.mpr (fun e he => (hn e he).2)
    simp [received, hm, hnone]
  constructor
  · rw [hg]
    exact h.climb
  · rw [hg, ht]
    exact h.below
  · rw [hg, hr, hc]
    exact h.inTurn

theorem Committing.same {s s' : Pipeline β} (h : Committing s) (hm : s'.marks = s.marks) (ht : s'.tracker = s.tracker)
    (hc : s'.call.claimed = s.call.claimed) : Committing s' :=
  h.congr [] (by simp [hm]) (by simp [events]) ht hc

theorem Committing.input {s : Pipeline β} (h : Committing s) (a : WorkerInput) : Committing (s.input a) := by
  have hn := s.worker.apart_step a
  exact h.congr ((s.worker.step a).2.map .event) rfl (by simpa using hn) rfl rfl

variable [Broker β]

theorem Committing.commit {s : Pipeline β} (h : Committing s) : Committing s.commit := by
  have hacc := s.call.step_accounts s.tracker s.broker
  have hgrants := s.call.step_grants s.tracker s.broker
  rw [Pipeline.commit]
  generalize s.call.step s.tracker s.broker = r at hacc hgrants
  obtain ⟨c, r⟩ := r
  have hclimb (p : Partition) := CommitPool.climb_grant hgrants p (h.climb p) (h.below p)
  refine ⟨fun p => ?_, fun p => ?_, ?_⟩
  · simpa [granted] using (hclimb p).1
  · simpa [granted] using (hclimb p).2
  · calc ((events (s.marks ++ r.events.map .event)).flatMap Event.submitted) ++ c.claimed
        = s.received ++ (r.events.flatMap Event.submitted ++ c.claimed) := by simp [received]
      _ = s.received ++ s.call.claimed ++ r.events.flatMap Event.granted := by rw [hacc, List.append_assoc]
      _ = (events (s.marks ++ r.events.map .event)).flatMap Event.granted := by rw [h.inTurn]; simp [granted]

theorem Committing.move {s : Pipeline β} (h : Committing s) (m : Move β) : Committing (s.move m) := by
  cases m with
  | ask now heard =>
      simp only [Pipeline.move, Pipeline.ask]
      split
      · exact h
      · next q hq =>
          have hn := s.loop.events_marks (s.reply now heard q).2
          refine h.congr (s.loop.marks (s.reply now heard q).2) ?_ (by simp [hn]) (by simp [hear]) (by simp [hear])
          simp only [hear, reply_marks, reply_loop]
  | look =>
      simp only [Pipeline.move, Pipeline.look]
      split
      · exact h
      · split
        · exact h.input .abort
        · exact h.congr (s.taken.toList.map .begun) rfl (by simp) rfl rfl
  | receive =>
      simp only [Pipeline.move, Pipeline.receive]
      split
      · split
        · next q b _ =>
            have hs : Committing { s with queue := q, taken := some b, attending := false } := h.same rfl rfl rfl
            exact hs.input _
        · exact h.same rfl rfl rfl
        · exact h.input _
      · exact h
  | drive a =>
      simp only [Pipeline.move, Pipeline.drive]
      split
      · exact (h.input (.drive a)).same rfl rfl rfl
      · exact h
  | complete =>
      simp only [Pipeline.move, Pipeline.complete]
      split
      · exact (h.input .complete).same rfl rfl rfl
      · exact h
  | commit => exact h.commit
  | rest =>
      simp only [Pipeline.move, Pipeline.rest]
      split
      · exact h.same rfl rfl rfl
      · exact h
  | leave =>
      simp only [Pipeline.move, Pipeline.leave]
      split
      · exact h.same rfl rfl rfl
      · exact h
  | requestStop | abort | elsewhere f => exact h.same rfl rfl rfl

theorem committing_run {s : Pipeline β} (h : Committing s) (ms : List (Move β)) : Committing (s.run ms) :=
  run_invariant (fun _ m h => h.move m) h ms

/-- What a listener gives to the broker only ever moves a partition forward, whatever the order of the steps. -/
theorem received_climbs {l : Listener} {t : Tracker} {b : β} {s : Pipeline β} (h : start l t b = .ok s)
    (ms : List (Move β)) (p : Partition) : (p.offsets (s.run ms).received).Pairwise (· < ·) := by
  have hstart : Committing s := by
    obtain ⟨q, -, rfl⟩ := start_ok h
    exact ⟨fun p => .nil, by simp [granted, events], rfl⟩
  have hrun := committing_run hstart ms
  have hsub : (p.offsets (s.run ms).received).Sublist (p.offsets (s.run ms).granted) := by
    rw [← hrun.inTurn, Partition.offsets_append]
    exact List.sublist_append_left _ _
  exact (hrun.climb p).sublist hsub

end Pipeline

end StreamTrigger
