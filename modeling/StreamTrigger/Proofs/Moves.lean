import StreamTrigger.Proofs.Delivery

namespace StreamTrigger

open Trace

namespace Pipeline

variable {β : Type}

/-- What one move does where the worker is concerned. -/
inductive Step (s s' : Pipeline β) : Prop
  | aside (ns : List Mark) : s'.worker = s.worker → s'.taken = s.taken → s'.marks = s.marks ++ ns → begun ns = [] →
      (∀ e ∈ events ns, e.silent) → (s.call.done → s'.call.done ∧ events ns = []) →
      (s.attending → s'.attending ∨ s.call.done ∨ s.worker.phase = .waiting) → Step s s'
  | stops (why : List WorkTask) : s.worker.ended = false → s.attending = false ∨ s.worker.phase = .waiting →
      s'.worker = (s.worker.stop why).1 → s'.taken = s.taken →
      s'.marks = s.marks ++ (s.worker.stop why).2.map .event → s'.call = s.call → Step s s'
  | begins : s.listener.abortRequested = false → s.worker.ended = false → s.attending = false → s'.worker = s.worker →
      s'.taken = none → s'.marks = s.marks ++ s.taken.toList.map .begun → s'.call = s.call → Step s s'
  | takes (b : Batch) : s.attending → s.worker.phase = .waiting →
      s'.worker = { s.worker with phase := .dispatching (Dispatch.begin s.worker.mode b) } → s'.taken = some b →
      s'.marks = s.marks → s'.call = s.call → Step s s'
  | drives (d : Dispatch) (a : Drive) : s.attending → s.call.done → s.worker.phase = .dispatching d →
      s'.worker = { s.worker with phase := Worker.reached (d.step a).1 } → s'.taken = s.taken → s'.attending →
      s'.marks = s.marks ++ (d.step a).2.map .event →
      s'.call = { s.call with unchecked := (d.step a).2.flatMap Event.handedOver } → Step s s'
  | completes (d : Dispatch) : s.attending → s.call.done → s.worker.phase = .dispatching d → d.done →
      s'.worker.phase = .waiting → s'.worker.mode = s.worker.mode → s'.taken = s.taken → s'.marks = s.marks →
      s'.call = s.call → Step s s'

theorem Step.mode {s s' : Pipeline β} (h : Step s s') : s'.worker.mode = s.worker.mode := by
  cases h with
  | aside _ hw | stops _ _ _ hw | begins _ _ _ hw | takes _ _ _ hw | drives _ _ _ _ _ hw => exact (congrArg Worker.mode hw :)
  | completes _ _ _ _ _ _ hm => exact hm

theorem Step.ended {s s' : Pipeline β} (h : Step s s') (hw : s.worker.ended) : s'.worker.ended := by
  cases h with
  | aside _ hworker | begins _ _ _ hworker => exact hworker ▸ hw
  | stops why _ _ hworker => rw [hworker]; rfl
  | takes _ _ hp | drives _ _ _ _ hp | completes _ _ _ hp => simp [Worker.ended, hp] at hw

theorem Step.marks {s s' : Pipeline β} (h : Step s s') : ∃ ns, s'.marks = s.marks ++ ns := by
  cases h with
  | aside ns _ _ hm => exact ⟨ns, hm⟩
  | stops _ _ _ _ _ hm | begins _ _ _ _ _ hm | drives _ _ _ _ _ _ _ _ hm => exact ⟨_, hm⟩
  | takes _ _ _ _ _ hm | completes _ _ _ _ _ _ _ _ hm => exact ⟨[], by simp [hm]⟩

section Steps

variable (s : Pipeline β)

theorem Step.still {s s' : Pipeline β} (hw : s'.worker = s.worker) (ht : s'.taken = s.taken) (hm : s'.marks = s.marks)
    (hc : s'.call = s.call) (ha : s.attending → s'.attending ∨ s.call.done ∨ s.worker.phase = .waiting) : Step s s' :=
  .aside [] hw ht (by simp [hm]) rfl (by simp [events]) (fun hd => ⟨hc ▸ hd, rfl⟩) ha

theorem Step.refl : Step s s := .still rfl rfl rfl rfl .inl

theorem look_step : Step s s.look := by
  rw [look]
  split
  · exact .refl s
  · next hw =>
      simp only [Bool.or_eq_true, not_or, Bool.not_eq_true] at hw
      split
      · have he := s.worker.step_effect .abort
        rw [input]
        generalize s.worker.step .abort = r at he ⊢
        obtain ⟨w, es⟩ := r
        cases he with
        | idle => exact .still rfl rfl (by simp) rfl .inl
        | aborts why _ hn => exact .stops [why] hn (.inl hw.1) rfl rfl rfl rfl
      · next ha => exact .begins (by simpa using ha) hw.2 hw.1 rfl rfl rfl rfl

theorem receive_step : Step s s.receive := by
  rw [receive]
  split
  · next ha hp =>
      split
      · next q b hq => exact .takes b ha hp (by simp [input, Worker.step, hp]) rfl (by simp [input, Worker.step, hp]) rfl
      · exact .still rfl rfl rfl rfl (fun _ => .inr (.inr hp))
      · have hn : s.worker.ended = false := by simp [Worker.ended, hp]
        exact .stops [] hn (.inr hp) (by simp [input, Worker.step, hp]) rfl (by simp [input, Worker.step, hp]) rfl
  · exact .refl s

theorem drive_step (a : Drive) : Step s (s.drive a) := by
  rw [drive]
  split
  · next hg =>
      obtain ⟨ha, hd⟩ := by simpa using hg
      have he := s.worker.step_effect (.drive a)
      rw [input]
      generalize s.worker.step (.drive a) = r at he ⊢
      obtain ⟨w, es⟩ := r
      cases he with
      | idle =>
          have hdone : { s.call with unchecked := [] }.done := by simpa [CommitCall.done] using (CommitCall.done_iff.mp hd).2
          exact .aside [] rfl rfl (by simp) rfl (by simp [events]) (fun _ => ⟨hdone, rfl⟩) .inl
      | drives d _ hp => exact .drives d a ha hd hp rfl rfl ha rfl rfl
  · exact .refl s

theorem complete_step : Step s s.complete := by
  rw [complete]
  split
  · next hg =>
      obtain ⟨ha, hd⟩ := by simpa using hg
      have he := s.worker.step_effect .complete
      rw [input]
      generalize s.worker.step .complete = r at he ⊢
      obtain ⟨w, es⟩ := r
      cases he with
      | idle => exact .still rfl rfl (by simp) rfl (fun _ => .inr (.inl hd))
      | completes d hp hdone => exact .completes d ha hd hp hdone rfl rfl rfl (by simp) rfl
  · exact .refl s

variable [Broker β]

theorem ask_step (now : Nat) (heard : Bool) : Step s (s.ask now heard) := by
  rw [ask]
  split
  · exact .refl s
  · next q hq =>
      have hevents := s.loop.events_marks (s.reply now heard q).2
      exact .aside (s.loop.marks (s.reply now heard q).2) (by simp [hear]) (by simp [hear]) (by simp [hear])
        (s.loop.begun_marks _) (by simp [hevents]) (fun hd => ⟨by simpa [hear] using hd, hevents⟩)
        (fun ha => .inl (by simpa [hear] using ha))

theorem commit_step : Step s s.commit := by
  refine .aside ((s.call.step s.tracker s.broker).2.events.map .event) rfl rfl rfl (by simp) ?_ (fun hd => ?_) .inl
  · simpa using s.call.step_silent s.tracker s.broker
  · simpa [commit, CommitCall.step_done hd, events] using hd

theorem move_step (m : Move β) : Step s (s.move m) := by
  cases m with
  | ask now heard => exact s.ask_step now heard
  | look => exact s.look_step
  | receive => exact s.receive_step
  | drive a => exact s.drive_step a
  | complete => exact s.complete_step
  | commit => exact s.commit_step
  | rest =>
      simp only [move, rest]
      split
      · next hd => exact .still rfl rfl rfl rfl (fun _ => .inr (.inl hd))
      · exact .refl s
  | leave =>
      simp only [move, leave]
      split
      · exact .still rfl rfl rfl rfl .inl
      · exact .refl s
  | requestStop | abort | elsewhere f => exact .still rfl rfl rfl rfl .inl

theorem mode_run (ms : List (Move β)) : (s.run ms).worker.mode = s.worker.mode :=
  run_invariant (P := fun t => t.worker.mode = s.worker.mode) (fun t m h => (t.move_step m).mode.trans h) rfl ms

/-- Only the polling loop itself moves on, and only by its questions. -/
theorem loop_move {m : Move β} (hm : ∀ now heard, m ≠ .ask now heard) : (s.move m).loop = s.loop := by
  cases m with
  | ask now heard => exact absurd rfl (hm now heard)
  | look =>
      simp only [Pipeline.move, Pipeline.look]
      split
      · rfl
      · split <;> rfl
  | receive =>
      simp only [Pipeline.move, Pipeline.receive]
      split
      · split <;> rfl
      · rfl
  | drive a =>
      simp only [Pipeline.move, Pipeline.drive]
      split <;> rfl
  | complete =>
      simp only [Pipeline.move, Pipeline.complete]
      split <;> rfl
  | rest =>
      simp only [Pipeline.move, Pipeline.rest]
      split <;> rfl
  | leave =>
      simp only [Pipeline.move, Pipeline.leave]
      split <;> rfl
  | commit | requestStop | abort | elsewhere f => rfl

end Steps

end Pipeline

end StreamTrigger
