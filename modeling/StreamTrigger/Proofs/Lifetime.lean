import StreamTrigger.Proofs.Aborting
import StreamTrigger.Rehearsal.Script

namespace StreamTrigger

open Trace

namespace Ingestion

def CanPoll (l : Ingestion) : Prop := ∃ as wait, (l.run as).1.asks = some (.poll wait)

theorem run_of_ended {l : Ingestion} (h : l.phase = .ended) (as : List Answer) : (l.run as).1 = l := by
  induction as with
  | nil => rfl
  | cons a as ih =>
      have hstep : (l.step a).1 = l := by simp [step, h]
      rw [run, hstep, ih]

theorem not_canPoll_of_ended {l : Ingestion} (h : l.phase = .ended) : ¬ l.CanPoll := by
  rintro ⟨as, wait, hasks⟩
  rw [run_of_ended h] at hasks
  simp [asks, h] at hasks

end Ingestion

namespace Pipeline

variable {β : Type}

def ceased (s : Pipeline β) : Bool := decide (s.loop.phase = .ended) && s.worker.ended

theorem ceased_iff {s : Pipeline β} : s.ceased ↔ s.loop.phase = .ended ∧ s.worker.ended := by simp [ceased]

variable [Broker β]

theorem ceased_move {s : Pipeline β} (h : s.ceased) (m : Move β) : (s.move m).ceased := by
  obtain ⟨hloop, hworker⟩ := ceased_iff.mp h
  refine ceased_iff.mpr ⟨?_, (s.move_step m).ended hworker⟩
  by_cases hm : ∃ now heard, m = .ask now heard
  · obtain ⟨now, heard, rfl⟩ := hm
    have hasks : s.loop.asks = none := by simp [Ingestion.asks, hloop]
    simp [Pipeline.move, Pipeline.ask, hasks, hloop]
  · rw [loop_move s (fun now heard he => hm ⟨now, heard, he⟩)]
    exact hloop

end Pipeline

/-- Each start adds a run. The requests of the listener are seen by all runs, and the broker is the same for all of them.
The `setbacks` are the waits that were in vain and the starts that found no thread for their polling loop. -/
structure Lifetime (β : Type) where
  listener : Listener
  tracker : Tracker
  broker : β
  runs : List (Pipeline β) := []
  setbacks : Nat := 0

namespace Lifetime

variable {β : Type} [Broker β]

def make (settings : ListenerSettings) (t : Tracker) (b : β) : Lifetime β :=
  { listener := { settings := settings }, tracker := t, broker := b }

/-- What is asked of the listener, and what the parties of a run do meanwhile. A wait that could be over in time may
still be too late. -/
inductive Move (β : Type) where
  | start
  | startUnfed
  | requestStop
  | await (inTime : Bool) (timeoutMs : Nat) (observed : Bool)
  | stop (inTime : Bool) (timeoutMs : Nat) (observed : Bool)
  | party (run : Nat) (m : Pipeline.Move β)

def starts (s : Lifetime β) : Except StartError (Pipeline β) := Pipeline.start s.listener s.tracker s.broker

def start (s : Lifetime β) : Lifetime β :=
  match s.starts with
  | .error _ => s
  | .ok r => { s with listener := r.listener, runs := s.runs ++ [r] }

/-- A worker that nothing will ever feed is aborted. -/
def startUnfed (s : Lifetime β) : Lifetime β :=
  match s.starts with
  | .error _ => s
  | .ok _ => { s with listener := { s.listener with abortRequested := true }, setbacks := s.setbacks + 1 }

def requestStop (s : Lifetime β) : Lifetime β := { s with listener := s.listener.requestStop.1 }

def outcome (s : Lifetime β) (inTime : Bool) (timeoutMs : Nat) (observed : Bool) : Wait :=
  if inTime && s.runs.getLast?.all Pipeline.ceased then .drained (s.runs.getLast?.bind (fun r => r.worker.fault?))
  else .timedOut timeoutMs observed

def await (s : Lifetime β) (inTime : Bool) (timeoutMs : Nat) (observed : Bool) : Lifetime β :=
  match s.listener.awaitStopped with
  | none => s
  | some l =>
      let waited := l.waited (s.outcome inTime timeoutMs observed)
      { s with listener := waited.1, setbacks := if waited.2.1 then s.setbacks else s.setbacks + 1 }

def closed (s : Lifetime β) : Lifetime β := { s with broker := Broker.close s.broker }

def among (s : Lifetime β) (r : Pipeline β) : Pipeline β :=
  { r with listener := s.listener, tracker := s.tracker, broker := s.broker }

def party (s : Lifetime β) (i : Nat) (m : Pipeline.Move β) : Lifetime β :=
  match s.runs[i]? with
  | none => s
  | some r =>
      let r := (s.among r).move m
      { s with tracker := r.tracker, broker := r.broker, runs := s.runs.set i r }

def move (s : Lifetime β) : Move β → Lifetime β
  | .start => s.start
  | .startUnfed => s.startUnfed
  | .requestStop => s.requestStop
  | .await inTime timeoutMs observed => s.await inTime timeoutMs observed
  | .stop inTime timeoutMs observed => (s.requestStop.await inTime timeoutMs observed).closed
  | .party i m => s.party i m

def run (s : Lifetime β) (ms : List (Move β)) : Lifetime β := ms.foldl move s

/-- The abort is requested by setbacks alone, and where there was none, all runs but the last one of a listener that
still runs are over. -/
structure Kept (settings : ListenerSettings) (s : Lifetime β) : Prop where
  settings : s.listener.settings = settings
  aborted : s.listener.abortRequested ↔ 0 < s.setbacks
  ceased : s.setbacks = 0 → ∀ i r, s.runs[i]? = some r → (s.listener.running → i + 1 < s.runs.length) → r.ceased

variable {settings : ListenerSettings} {s : Lifetime β}

omit [Broker β] in
theorem kept_make (t : Tracker) (b : β) : Kept settings (make settings t b) := ⟨rfl, by simp [make], by simp [make]⟩

omit [Broker β] in
theorem starts_ok {r : Pipeline β} (h : s.starts = .ok r) :
    s.listener.running = false ∧ s.listener.stopRequested = false := by
  rw [starts, Pipeline.start, Listener.start] at h
  split at h
  · simp [Except.map] at h
  · split at h
    · simp [Except.map] at h
    · simp_all

omit [Broker β] in
theorem Kept.start (h : Kept settings s) : Kept settings s.start := by
  rw [Lifetime.start]
  split
  · exact h
  · next r hr =>
      have hnot := (starts_ok hr).1
      obtain ⟨q, -, rfl⟩ := Pipeline.start_ok hr
      refine ⟨h.settings, h.aborted, fun hs i r hi hlast => ?_⟩
      have hlt : i < s.runs.length := by simpa using hlast rfl
      rw [List.getElem?_append_left hlt] at hi
      exact h.ceased hs i r hi (by simp [hnot])

omit [Broker β] in
theorem Kept.startUnfed (h : Kept settings s) : Kept settings s.startUnfed := by
  rw [Lifetime.startUnfed]
  split
  · exact h
  · exact ⟨h.settings, by simp, by simp⟩

omit [Broker β] in
theorem Kept.requestStop (h : Kept settings s) : Kept settings s.requestStop := ⟨h.settings, h.aborted, h.ceased⟩

omit [Broker β] in
theorem Kept.await (h : Kept settings s) (inTime : Bool) (timeoutMs : Nat) (observed : Bool) :
    Kept settings (s.await inTime timeoutMs observed) := by
  rw [Lifetime.await, Listener.awaitStopped]
  split
  · exact h
  · next l hl =>
      obtain rfl : { s.listener with running := false } = l := by
        split at hl <;> simp_all
      by_cases hin : inTime && s.runs.getLast?.all Pipeline.ceased
      · simp only [outcome, hin, if_true, Listener.waited]
        refine ⟨h.settings, h.aborted, fun hs i r hi _ => ?_⟩
        by_cases hlast : i + 1 < s.runs.length
        · exact h.ceased hs i r hi (fun _ => hlast)
        · have hlen : i < s.runs.length := (List.getElem?_eq_some_iff.mp hi).1
          have hi' : s.runs.getLast? = some r := by
            rw [List.getLast?_eq_getElem?, ← hi]
            congr 1
            omega
          simp_all
      · simp only [outcome, hin, Listener.waited]
        exact ⟨h.settings, by simp, by simp⟩

theorem Kept.closed (h : Kept settings s) : Kept settings s.closed := ⟨h.settings, h.aborted, h.ceased⟩

theorem Kept.party (h : Kept settings s) (i : Nat) (m : Pipeline.Move β) : Kept settings (s.party i m) := by
  rw [Lifetime.party]
  split
  · exact h
  · next r hr =>
      refine ⟨h.settings, h.aborted, fun hs j e hj hlast => ?_⟩
      simp only [List.length_set] at hlast
      rw [List.getElem?_set] at hj
      split at hj
      · next hij =>
          subst hij
          split at hj
          · obtain rfl : (s.among r).move m = e := by simpa using hj
            have hceased : (s.among r).ceased := h.ceased hs i r hr hlast
            exact Pipeline.ceased_move hceased m
          · simp at hj
      · exact h.ceased hs j e hj hlast

theorem Kept.move (h : Kept settings s) (m : Move β) : Kept settings (s.move m) := by
  cases m with
  | start => exact h.start
  | startUnfed => exact h.startUnfed
  | requestStop => exact h.requestStop
  | await inTime timeoutMs observed => exact h.await inTime timeoutMs observed
  | stop inTime timeoutMs observed => exact (h.requestStop.await inTime timeoutMs observed).closed
  | party i m => exact h.party i m

theorem Kept.run (h : Kept settings s) (ms : List (Move β)) : Kept settings (s.run ms) := by
  induction ms generalizing s with
  | nil => exact h
  | cons m ms ih => exact ih (h.move m)

/-- A listener that starts has no stop requested. After a setback it starts with the abort requested, and nothing is
ever begun. Where there was none, nothing of earlier starts goes on, and it starts as if it were new. -/
theorem starts_as_new_without_setback (settings : ListenerSettings) (t : Tracker) (b : β) (ms : List (Move β))
    {s : Lifetime β} (hs : (make settings t b).run ms = s) {r : Pipeline β} (h : s.starts = .ok r) :
    r.listener.stopRequested = false ∧ (r.listener.abortRequested ↔ 0 < s.setbacks) ∧
      (0 < s.setbacks → ∀ ms', begun (r.run ms').marks = []) ∧
      (s.setbacks = 0 → (∀ e ∈ s.runs, ¬ e.loop.CanPoll ∧ e.worker.ended) ∧
        Pipeline.start { settings := settings } s.tracker s.broker = .ok r) := by
  have hkept : Kept settings s := hs ▸ (kept_make t b).run ms
  have hnot := starts_ok h
  obtain ⟨q, -, rfl⟩ := Pipeline.start_ok h
  refine ⟨hnot.2, hkept.aborted, fun hset ms' => ?_, fun hset => ⟨fun e he => ?_, ?_⟩⟩
  · exact (Pipeline.begun_aborted (hkept.aborted.mpr hset) ms').trans rfl
  · obtain ⟨i, hi⟩ := List.getElem?_of_mem he
    obtain ⟨hloop, hworker⟩ := Pipeline.ceased_iff.mp (hkept.ceased hset i e hi (by simp [hnot.1]))
    exact ⟨Ingestion.not_canPoll_of_ended hloop, hworker⟩
  · have hab : s.listener.abortRequested = false := by
      by_contra ha
      have := hkept.aborted.mp (by simpa using ha)
      omega
    have hl : s.listener = { settings := settings } := by
      obtain ⟨hrun, hstop⟩ := hnot
      have hsettings := hkept.settings
      generalize s.listener = l at hab hrun hstop hsettings
      obtain ⟨_, _, _, _⟩ := l
      simp_all
    rw [← hl]
    exact h

def spoiled : ScriptedBroker where
  polls := [Word.greatest, 0].map (fun offset => .result (.record (Pipeline.queuedRecord 0 offset)))

/-- The worker fails at the first record, and the polling loop ends when the second finds no queue. -/
def downfall : List (Pipeline.Move ScriptedBroker) :=
  List.replicate 6 (.ask 0 true) ++ [.look, .receive, .look, .drive (.turn 0), .leave] ++ List.replicate 9 (.ask 0 true)

def failedWorker : List (Move ScriptedBroker) := [.start] ++ downfall.map (.party 0) ++ [.await true 0 true]

theorem starts_as_new_after_failed_worker :
    ∃ s r, (make Pipeline.narrow.settings {} spoiled).run failedWorker = s ∧ s.starts = .ok r ∧
      s.runs.map (fun e => e.worker.fault?) = [some .addOverflow] ∧ r.listener.abortRequested = false ∧
      (∀ e ∈ s.runs, ¬ e.loop.CanPoll ∧ e.worker.ended) ∧
      Pipeline.start { settings := Pipeline.narrow.settings } s.tracker s.broker = .ok r := by
  have hname : Fault.ofThreadName? Pipeline.narrow.threadName = none := by decide +kernel
  have hlistener : ((make Pipeline.narrow.settings {} spoiled).run failedWorker).listener = Pipeline.narrow := by
    decide +kernel
  have hstarts : ∃ r, ((make Pipeline.narrow.settings {} spoiled).run failedWorker).starts = .ok r := by
    rw [starts, hlistener, Pipeline.start, Listener.start, hname]
    exact ⟨_, rfl⟩
  obtain ⟨r, hr⟩ := hstarts
  obtain ⟨-, haborted, -, hnew⟩ := starts_as_new_without_setback Pipeline.narrow.settings {} spoiled failedWorker rfl hr
  have hset : ((make Pipeline.narrow.settings {} spoiled).run failedWorker).setbacks = 0 := by decide +kernel
  obtain ⟨hceased, hsame⟩ := hnew hset
  refine ⟨_, r, rfl, hr, by decide +kernel, ?_, hceased, hsame⟩
  rw [hset] at haborted
  simpa using haborted

/-- A listener that was waited for in vain starts again: the abort is requested from the first step on, and the polling
loop of the first start still comes to poll. -/
theorem starts_aborted_after_vain_wait :
    ∃ s r, (make Pipeline.narrow.settings {} Pipeline.threeRecords).run [.start, .await false 0 true] = s ∧
      s.starts = .ok r ∧ r.listener.isRunning ∧ r.listener.abortRequested ∧ ∃ e ∈ s.runs, e.loop.CanPoll := by
  have hname : Fault.ofThreadName? Pipeline.narrow.threadName = none := by decide +kernel
  have hlistener : ((make Pipeline.narrow.settings {} Pipeline.threeRecords).run [.start, .await false 0 true]).listener =
      { Pipeline.narrow with abortRequested := true } := by
    decide +kernel
  have hstarts : ∃ r, ((make Pipeline.narrow.settings {} Pipeline.threeRecords).run [.start, .await false 0 true]).starts =
      .ok r ∧ r.listener.isRunning ∧ r.listener.abortRequested := by
    rw [starts, hlistener, Pipeline.start, Listener.start, Listener.threadName]
    rw [show Fault.ofThreadName? ("ingest-" ++ Pipeline.narrow.settings.topic) = none from hname]
    exact ⟨_, rfl, rfl, rfl⟩
  obtain ⟨r, hr, hrunning, haborted⟩ := hstarts
  have hlooks : (((make Pipeline.narrow.settings {} Pipeline.threeRecords).run [.start, .await false 0 true]).runs.map
      (fun e => (e.loop.run [.flag false, .time 0, .flag false, .time 0]).1.asks)) =
      [some (.poll Pipeline.narrow.settings.slice)] := by
    decide +kernel
  refine ⟨_, r, rfl, hr, hrunning, haborted, ?_⟩
  obtain ⟨e, he, hasks⟩ := List.mem_map.mp (hlooks ▸ List.mem_singleton_self _)
  exact ⟨e, he, _, _, hasks⟩

end Lifetime

end StreamTrigger
