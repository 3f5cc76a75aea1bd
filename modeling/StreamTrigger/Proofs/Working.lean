import StreamTrigger.Proofs.Lanes
import StreamTrigger.Proofs.Trace

namespace StreamTrigger

namespace Worker

def reached (d : Dispatch) : WorkerPhase :=
  match d.fault with
  | some f => .failed f
  | none => .dispatching d

inductive Effect (w : Worker) : WorkerInput → Worker → List Event → Prop
  | idle (a : WorkerInput) : Effect w a w []
  | aborts (why : WorkTask) : why = .abortedWaiting ∨ why = .abortedDispatching → w.ended = false →
      (∀ d, w.phase = .dispatching d → d.focus = none) → Effect w .abort (w.stop [why]).1 (w.stop [why]).2
  | ends : w.phase = .waiting → Effect w (.received none) (w.stop []).1 (w.stop []).2
  | begins (b : Batch) : w.phase = .waiting →
      Effect w (.received (some b)) { w with phase := .dispatching (Dispatch.begin w.mode b) } []
  | drives (d : Dispatch) (x : Drive) : w.phase = .dispatching d →
      Effect w (.drive x) { w with phase := reached (d.step x).1 } (d.step x).2
  | completes (d : Dispatch) : w.phase = .dispatching d → d.done →
      Effect w .complete { w with phase := .waiting, batches := w.batches + 1 } []

theorem step_drive {w : Worker} {d : Dispatch} (h : w.phase = .dispatching d) (x : Drive) :
    w.step (.drive x) = ({ w with phase := reached (d.step x).1 }, (d.step x).2) := by
  simp only [step, h, reached]
  cases (d.step x).1.fault <;> rfl

theorem step_effect (w : Worker) (a : WorkerInput) : Effect w a (w.step a).1 (w.step a).2 := by
  cases hp : w.phase with
  | waiting =>
      rcases a with _ | (_ | b) | x | _
      · simpa only [step, hp] using Effect.aborts _ (.inl rfl) (by simp [ended, hp]) (by simp [hp])
      · simpa only [step, hp] using Effect.ends hp
      · simpa only [step, hp] using Effect.begins b hp
      · simpa only [step, hp] using Effect.idle _
      · simpa only [step, hp] using Effect.idle _
  | dispatching d =>
      cases a with
      | abort =>
          cases hf : d.focus with
          | none =>
              have he : Effect w .abort _ _ := .aborts _ (.inr rfl) (by simp [ended, hp]) (by simp [hp, hf])
              simpa [step, hp, hf] using he
          | some i => simpa [step, hp, hf] using Effect.idle _
      | received b => simpa only [step, hp] using Effect.idle _
      | drive x =>
          rw [step_drive hp]
          exact .drives d x hp
      | complete =>
          cases hd : d.done with
          | true => simpa [step, hp, hd] using Effect.completes d hp hd
          | false => simpa [step, hp, hd] using Effect.idle _
  | stopped | failed f => cases a <;> simpa only [step, hp] using Effect.idle _

theorem silent_stop (w : Worker) (why : List WorkTask) : ∀ e ∈ (w.stop why).2, e.silent := by
  intro e he
  obtain ⟨n, -, rfl⟩ := List.mem_map.mp he
  rfl

theorem step_ended {w : Worker} (h : w.ended) (a : WorkerInput) : w.step a = (w, []) := by
  have he := w.step_effect a
  generalize w.step a = r at he ⊢
  obtain ⟨w', es⟩ := r
  cases he with
  | idle => rfl
  | aborts why _ hn => simp [h] at hn
  | ends hp | begins b hp | drives d x hp | completes d hp => simp [ended, hp] at h

theorem mode_step (w : Worker) (a : WorkerInput) : (w.step a).1.mode = w.mode := by
  have h := w.step_effect a
  generalize (w.step a).1 = w', (w.step a).2 = es at h
  cases h <;> rfl

end Worker

end StreamTrigger
