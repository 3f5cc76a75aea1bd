import StreamTrigger.Proofs.Voting
import StreamTrigger.Rehearsal.Script
import StreamTrigger.Service.Routes

namespace StreamTrigger

/-- How far a request has come. Beside the list that it made stands what was recorded between the list and the vote. -/
inductive MonitorCall.Stage where
  | arrived
  | sampled
  | listed (samples late : List LagSample)
  | answered (samples late : List LagSample) (vote : Vote)
  | failed (f : Fault)

structure MonitorCall where
  workers : Nat
  stage : MonitorCall.Stage := .arrived

namespace MonitorCall

def miss (c : MonitorCall) (x : LagSample) : MonitorCall :=
  match c.stage with
  | .listed samples late => { c with stage := .listed samples (late ++ [x]) }
  | _ => c

def response? (m : ScaleMonitor) (c : MonitorCall) : Option Response :=
  match c.stage with
  | .answered samples _ v => some (.json (Service.monitorJson { m with samples := samples } v))
  | .failed f => some (.text 500 f.message)
  | _ => none

end MonitorCall

structure MonitorPool (β : Type) where
  monitor : ScaleMonitor
  provider : LagProvider
  broker : β
  calls : List MonitorCall := []
  recorded : List LagSample := []

namespace MonitorPool

variable {β : Type}

/-- A request arrives, or one of them takes its next step. Others may use the provider and the broker at any time. -/
inductive Move (β : Type) where
  | arrive (workers : Nat)
  | step (call : Nat) (now : Moment)
  | elsewhere (f : LagProvider × β → LagProvider × β)

def put (s : MonitorPool β) (i : Nat) (c : MonitorCall) (stage : MonitorCall.Stage) : MonitorPool β :=
  { s with calls := s.calls.set i { c with stage := stage } }

def note (s : MonitorPool β) (x : LagSample) : MonitorPool β :=
  { s with calls := s.calls.map (fun c => c.miss x), recorded := s.recorded ++ [x] }

variable [Broker β]

def step (s : MonitorPool β) (i : Nat) (now : Moment) : MonitorPool β :=
  match s.calls[i]? with
  | none => s
  | some c =>
      match c.stage with
      | .arrived =>
          let (m, x) := s.monitor.sample s.provider s.broker now
          let s := { s with monitor := m, provider := x.provider, broker := x.broker }
          match x.sample with
          | .ok sample => (s.note sample).put i c .sampled
          | .error f => s.put i c (.failed f)
      | .sampled => s.put i c (.listed s.monitor.samples [])
      -- The window is read again, and may have changed.
      | .listed samples late => s.put i c (.answered samples late (s.monitor.status c.workers).1)
      | .answered .. => s
      | .failed _ => s

def move (s : MonitorPool β) : Move β → MonitorPool β
  | .arrive workers => { s with calls := s.calls ++ [{ workers := workers }] }
  | .step i now => s.step i now
  | .elsewhere f => { s with provider := (f (s.provider, s.broker)).1, broker := (f (s.provider, s.broker)).2 }

def run (s : MonitorPool β) (ms : List (Move β)) : MonitorPool β := ms.foldl move s

/-- A request whose steps come one right after another is answered as the service answers it. -/
theorem serves_alone (t : MonitorPool β) {s : Service β} (hmonitor : t.monitor = s.monitor)
    (hprovider : t.provider = s.provider) (hbroker : t.broker = s.broker) {query : String} {workers : Option Nat}
    (hquery : Query.read "worker_count" query = .ok workers) (now : Moment) :
    let i := t.calls.length
    let t := t.run [.arrive (workers.getD 0), .step i now, .step i now, .step i now]
    let served := s.serveMonitor query now
    t.calls[i]?.bind (fun c => c.response? t.monitor) = some served.response ∧
      t.monitor = served.service.monitor ∧ t.provider = served.service.provider ∧
      t.broker = served.service.broker := by
  obtain ⟨m, p, b, calls, recorded⟩ := t
  subst hmonitor hprovider hbroker
  rw [Service.serveMonitor, hquery]
  simp only [run, List.foldl_cons, List.foldl_nil, move, step, List.getElem?_concat_length, ScaleMonitor.sample]
  cases hx : (s.provider.measure s.broker now).sample with
  | error f => simp [put, MonitorCall.response?]
  | ok x => simp [put, note, MonitorCall.response?, MonitorCall.miss]

omit [Broker β] in
theorem mem_put {s : MonitorPool β} {i : Nat} {c c' : MonitorCall} {stage : MonitorCall.Stage}
    (h : c' ∈ (s.put i c stage).calls) : c' ∈ s.calls ∨ c' = { c with stage := stage } :=
  List.mem_or_eq_of_mem_set h

end MonitorPool

/-- Where a list and the samples after it stand in all that was recorded. The list was the whole window. -/
def Stood (recorded samples late later : List LagSample) : Prop :=
  ∃ earlier, recorded = earlier ++ samples ++ late ++ later ∧
    samples = TopicScaler.recent TopicScaler.window (earlier ++ samples)

namespace Stood

open TopicScaler

variable {recorded samples late later : List LagSample}

theorem whole (h : samples = recent window recorded) : Stood recorded samples [] [] := by
  obtain ⟨earlier, hearlier⟩ := recent_suffix window recorded
  rw [← h] at hearlier
  exact ⟨earlier, by simp [hearlier], by rw [hearlier, h]⟩

theorem concat (h : Stood recorded samples late later) (x : LagSample) :
    Stood (recorded ++ [x]) samples late (later ++ [x]) := by
  obtain ⟨earlier, hrecorded, hsamples⟩ := h
  exact ⟨earlier, by simp [hrecorded], hsamples⟩

theorem miss {x : LagSample} (h : Stood recorded samples late (x :: later)) :
    Stood recorded samples (late ++ [x]) later := by
  obtain ⟨earlier, hrecorded, hsamples⟩ := h
  exact ⟨earlier, by simp [hrecorded], hsamples⟩

theorem vote_eq (h : Stood recorded samples late []) (scaler : TopicScaler) (workers : Nat) :
    scaler.vote workers recorded = scaler.vote workers (samples ++ late) := by
  obtain ⟨earlier, hrecorded, hsamples⟩ := h
  calc scaler.vote workers recorded
      = scaler.vote workers (recent window (earlier ++ samples ++ late)) := by
        rw [hrecorded, List.append_nil, vote_recent]
    _ = scaler.vote workers (recent window (samples ++ late)) := by
        rw [← recent_append window (earlier ++ samples), ← hsamples]
    _ = scaler.vote workers (samples ++ late) := vote_recent ..

end Stood

def MonitorCall.Told (scaler : TopicScaler) (recorded : List LagSample) (c : MonitorCall) : Prop :=
  match c.stage with
  | .listed samples late => Stood recorded samples late []
  | .answered samples late v =>
      (∃ later, Stood recorded samples late later) ∧ v = scaler.vote c.workers (samples ++ late)
  | _ => True

theorem MonitorCall.Told.miss {scaler : TopicScaler} {recorded : List LagSample} {c : MonitorCall}
    (h : c.Told scaler recorded) (x : LagSample) : (c.miss x).Told scaler (recorded ++ [x]) := by
  obtain ⟨workers, stage⟩ := c
  cases stage with
  | arrived | sampled | failed => trivial
  | listed samples late => exact (Stood.concat h x).miss
  | answered samples late v =>
      obtain ⟨⟨later, hlater⟩, hv⟩ := h
      exact ⟨⟨later ++ [x], hlater.concat x⟩, hv⟩

namespace MonitorPool

variable {β : Type} {s : MonitorPool β} {m : ScaleMonitor}

def opened (m : ScaleMonitor) (p : LagProvider) (b : β) : MonitorPool β := ⟨m, p, b, [], []⟩

structure Kept (m : ScaleMonitor) (s : MonitorPool β) : Prop where
  monitor : s.monitor = m.recordAll s.recorded
  calls : ∀ c ∈ s.calls, c.Told m.scaler s.recorded

namespace Kept

theorem opened (m : ScaleMonitor) (p : LagProvider) (b : β) : (opened m p b).Kept m :=
  ⟨rfl, by simp [MonitorPool.opened]⟩

theorem put (hs : s.Kept m) (i : Nat) {c : MonitorCall} {stage : MonitorCall.Stage}
    (hc : { c with stage := stage : MonitorCall }.Told m.scaler s.recorded) : (s.put i c stage).Kept m where
  monitor := hs.monitor
  calls c' hc' := by
    rcases mem_put hc' with hc' | rfl
    · exact hs.calls c' hc'
    · exact hc

theorem note (hs : s.Kept m) (p : LagProvider) (b : β) (x : LagSample) :
    Kept m (({ s with monitor := s.monitor.record x, provider := p, broker := b } : MonitorPool β).note x) where
  monitor := by
    change s.monitor.record x = m.recordAll (s.recorded ++ [x])
    rw [hs.monitor, ScaleMonitor.recordAll_concat]
  calls c hc := by
    obtain ⟨c', hc', rfl⟩ := List.mem_map.mp hc
    exact (hs.calls c' hc').miss x

theorem window (hs : s.Kept m) (hm : m.samples = []) :
    s.monitor.samples = TopicScaler.recent TopicScaler.window s.recorded := by
  rw [hs.monitor, ScaleMonitor.samples_recordAll hm]

theorem vote (hs : s.Kept m) (hm : m.samples = []) (workers : Nat) :
    (s.monitor.status workers).1 = m.scaler.vote workers s.recorded := by
  rw [hs.monitor, ScaleMonitor.status_recordAll hm]
  rfl

variable [Broker β]

theorem step (hs : s.Kept m) (hm : m.samples = []) (i : Nat) (now : Moment) : (s.step i now).Kept m := by
  rw [MonitorPool.step]
  split
  · exact hs
  · next c hc =>
      have htold := hs.calls c (List.mem_of_getElem? hc)
      obtain ⟨workers, stage⟩ := c
      cases stage with
      | arrived =>
          simp only [ScaleMonitor.sample]
          generalize s.provider.measure s.broker now = x
          obtain ⟨p, b, r, notices⟩ := x
          cases r with
          | ok sample => exact (hs.note p b sample).put i trivial
          | error f =>
              have hs' : Kept m { s with provider := p, broker := b } := ⟨hs.monitor, hs.calls⟩
              exact hs'.put i trivial
      | sampled => exact hs.put i (Stood.whole (hs.window hm))
      | listed samples late => exact hs.put i ⟨⟨[], htold⟩, (hs.vote hm workers).trans (Stood.vote_eq htold _ _)⟩
      | answered | failed => exact hs

theorem move (hs : s.Kept m) (hm : m.samples = []) (x : Move β) : (s.move x).Kept m := by
  cases x with
  | arrive workers =>
      refine ⟨hs.monitor, fun c hc => ?_⟩
      rcases List.mem_append.mp hc with hc | hc
      · exact hs.calls c hc
      · obtain rfl := List.mem_singleton.mp hc
        trivial
  | step i now => exact hs.step hm i now
  | elsewhere f => exact ⟨hs.monitor, hs.calls⟩

theorem run (hs : s.Kept m) (hm : m.samples = []) (ms : List (Move β)) : (s.run ms).Kept m := by
  induction ms generalizing s with
  | nil => exact hs
  | cons x ms ih => exact ih (hs.move hm x)

end Kept

variable [Broker β]

/-- Every answer lists the window as it stood at some time, and its vote is that on the window as it stood after it had
received what was recorded next. So an answer agrees with its list exactly if those samples leave the vote as it is,
which they do if there are none. -/
theorem agrees_iff_late_without_effect {function group topic : String} {scaler : TopicScaler} {p : LagProvider} {b : β}
    {ms : List (Move β)} (hrun : (opened (.make function group scaler topic) p b).run ms = s)
    {c : MonitorCall} (hc : c ∈ s.calls) {samples late : List LagSample} {v : Vote}
    (hanswered : c.stage = .answered samples late v) :
    (∃ later, Stood s.recorded samples late later) ∧
    v = scaler.vote c.workers (samples ++ late) ∧
    (v = scaler.vote c.workers samples ↔ scaler.vote c.workers (samples ++ late) = scaler.vote c.workers samples) ∧
    (late = [] → v = scaler.vote c.workers samples) := by
  have hs : s.Kept (.make function group scaler topic) := hrun ▸ (Kept.opened _ p b).run rfl ms
  have htold := hs.calls c hc
  rw [MonitorCall.Told, hanswered] at htold
  obtain ⟨hstood, hv⟩ := htold
  replace hv : v = scaler.vote c.workers (samples ++ late) := hv
  refine ⟨hstood, hv, by rw [hv], fun hlate => ?_⟩
  rw [hv, hlate, List.append_nil]

def lagging (lag : Int) : Move ScriptedBroker :=
  .elsewhere (fun x => (x.1, { x.2 with
    answers :=
      { partitions := .listed [0, 1, 2, 3, 4, 5, 6, 7]
        queried := some [(⟨"ev", 0⟩, some (.ofOffsets 0 lag))] } }))

def sampling (i : Nat) (lag : Int) : List (Move ScriptedBroker) :=
  [lagging lag, .arrive 1, .step i ⟨⟨i, 0⟩, i * 1000000000⟩]

/-- The fifth request makes its list, then a sixth takes its sample, then the fifth gets its vote. -/
def crossing (lag : Int) : List (Move ScriptedBroker) :=
  sampling 0 10 ++ sampling 1 20 ++ sampling 2 30 ++ sampling 3 40 ++ sampling 4 50 ++
    [.step 4 ⟨⟨4, 0⟩, 4000000000⟩] ++ sampling 5 lag ++ [.step 4 ⟨⟨5, 0⟩, 5000000000⟩]

def watcher : TopicScaler := ⟨"ev", "g", 1000⟩

def crossed (lag : Int) : MonitorPool ScriptedBroker :=
  (opened (.make "f" "g" watcher "ev") (.make "ev" "g" 1000000000 180000000000) {}).run (crossing lag)

def rising : List LagSample :=
  [⟨10, 8, ⟨0, 0⟩⟩, ⟨20, 8, ⟨1, 0⟩⟩, ⟨30, 8, ⟨2, 0⟩⟩, ⟨40, 8, ⟨3, 0⟩⟩, ⟨50, 8, ⟨4, 0⟩⟩]

theorem agrees_iff_late_without_effect_rising :
    ∃ c ∈ (crossed 60).calls, c.stage = .answered rising [⟨60, 8, ⟨5, 0⟩⟩] .scaleOut ∧
      watcher.vote c.workers rising = .scaleOut := by
  have hmem : (⟨1, .answered rising [⟨60, 8, ⟨5, 0⟩⟩] .scaleOut⟩ : MonitorCall) ∈ (crossed 60).calls :=
    List.mem_of_getElem? (i := 4) rfl
  obtain ⟨-, -, hiff, -⟩ := agrees_iff_late_without_effect (rfl : _ = crossed 60) hmem rfl
  exact ⟨_, hmem, rfl, (hiff.mpr rfl).symm⟩

/-- The late sample is below the last one of the list. The list is one of lag that rises, and the vote is not to scale. -/
theorem late_sample_votes :
    ∃ c ∈ (crossed 45).calls, c.stage = .answered rising [⟨45, 8, ⟨5, 0⟩⟩] .none ∧
      watcher.vote c.workers rising = .scaleOut :=
  ⟨⟨1, .answered rising [⟨45, 8, ⟨5, 0⟩⟩] .none⟩, List.mem_of_getElem? (i := 4) rfl, rfl, rfl⟩

end MonitorPool

end StreamTrigger
