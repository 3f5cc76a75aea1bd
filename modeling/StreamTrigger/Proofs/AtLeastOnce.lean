import StreamTrigger.Proofs.Delivery
import StreamTrigger.Rehearsal.Cluster
import Mathlib.Data.List.Flatten

namespace StreamTrigger

open Trace

structure Balance (ms : List Mark) (unstarted unended : List Record) : Prop where
  started : ∀ p : Partition, p.part (started ms) ++ p.part unstarted = p.part (begun ms).flatten
  completed : ∀ p : Partition, p.part (completed ms) ++ p.part unended = p.part (begun ms).flatten

namespace Balance

open Dispatch

variable {ms : List Mark} {us ue : List Record}

theorem append (h : Balance ms us ue) {ns : List Mark} (hb : begun ns = []) (hs : Trace.started ns = [])
    (hf : finished ns = []) : Balance (ms ++ ns) us ue where
  started p := by simpa [hs, hb] using h.started p
  completed p := by simpa [Trace.completed, hf, hb] using h.completed p

theorem begin (h : Balance ms [] []) (mode : DispatchMode) (b : Batch) :
    Balance (ms ++ [.begun b]) (Dispatch.begin mode b).unstarted (Dispatch.begin mode b).unended := by
  have hb : begun [.begun b] = [b] := rfl
  have hs : Trace.started [.begun b] = [] := rfl
  have hc : Trace.completed [.begun b] = [] := rfl
  constructor <;> intro p
  · simpa [part_unstarted_begin, hb, hs] using h.started p
  · simpa [part_unended_begin, hb, hc] using h.completed p

theorem events (h : Balance ms us ue) {es : List Event} {us' ue' : List Record}
    (hs : ∀ p : Partition, p.part us = p.part (es.flatMap Event.given) ++ p.part us')
    (hc : ∀ p : Partition, p.part ue = p.part ((es.flatMap Event.concluded).flatMap Invocation.records) ++ p.part ue') :
    Balance (ms ++ es.map .event) us' ue' where
  started p := by simpa [hs p] using h.started p
  completed p := by simpa [Trace.completed, hc p] using h.completed p

theorem of_handed {ps : List Position} (h : Balance (ms ++ [.event (.handed ps)]) us ue) : Balance ms us ue := by
  have hb : begun [.event (.handed ps)] = [] := rfl
  have hs : Trace.started [.event (.handed ps)] = [] := rfl
  have hc : Trace.completed [.event (.handed ps)] = [] := rfl
  constructor <;> intro p
  · simpa [hb, hs] using h.started p
  · simpa [hb, hc] using h.completed p

theorem step {d d' : Dispatch} {es : List Event} (h : Balance ms d.unstarted d.unended)
    (hs : Separate Lane.unended d.lanes) (he : Effect d d' es) :
    Balance (ms ++ es.map .event) d'.unstarted d'.unended ∧ Separate Lane.unended d'.lanes := by
  refine ⟨?_, hs.effect he⟩
  cases he with
  | quiet hl hf => exact h.events (by simp [unstarted, hl]) (by simp [unended, hl])
  | faults i l job rest f _ _ _ hl => exact h.events (by simp [unstarted, hl]) (by simp [unended, hl])
  | starts i l job rest hi hr hw hl hf =>
      have hn : Lane.unended ⟨some job, rest⟩ = Lane.unended l := by simp [Lane.unended, hr, hw]
      have hnext : Lane.waiting l = job :: Lane.waiting ⟨some job, rest⟩ := hw
      have hstart := part_todo_set hs.waiting hi hnext
      refine h.events (fun p => ?_) (fun p => ?_)
      · simp [unstarted, hl, hstart p, Event.given]
      · simp [unended, hl, todo_set hi hn, Event.concluded]
  | finishes i l job o hi hr hl hf =>
      have hn : Lane.unended l = job :: Lane.unended { l with running := none } := by simp [Lane.unended, hr]
      have hend := part_todo_set hs hi hn
      have hw : todo Lane.waiting (d.lanes.set i { l with running := none }) = todo Lane.waiting d.lanes :=
        todo_set hi rfl
      refine h.events (fun p => ?_) (fun p => ?_)
      · simp [unstarted, hl, hw, given_endEvents]
      · simp [unended, hl, hend p, concluded_endEvents]

end Balance

/-- What the worker has left of the batches that were begun, by its phase. A batch that was taken is not yet begun. -/
inductive Left (mode : DispatchMode) (aborted : Bool) : WorkerPhase → Option Batch → List Record → List Record → Prop
  | waiting : Left mode aborted .waiting none [] []
  | taken (b : Batch) : Left mode aborted (.dispatching (Dispatch.begin mode b)) (some b) [] []
  | dispatching (d : Dispatch) : Dispatch.Separate Lane.unended d.lanes →
      Left mode aborted (.dispatching d) none d.unstarted d.unended
  | stopped (b : Option Batch) (us ue : List Record) : (aborted = false → us = [] ∧ ue = []) →
      Left mode aborted .stopped b us ue
  | failed (b : Option Batch) (us ue : List Record) (f : Fault) : Left mode aborted (.failed f) b us ue

theorem Left.mono {mode : DispatchMode} {aborted aborted' : Bool} {phase : WorkerPhase} {b : Option Batch}
    {us ue : List Record} (h : Left mode aborted phase b us ue) (ha : aborted → aborted') :
    Left mode aborted' phase b us ue := by
  cases h with
  | waiting => exact .waiting
  | taken b => exact .taken b
  | dispatching d hd => exact .dispatching d hd
  | stopped b us ue hn => exact .stopped b us ue (fun hf => hn (by cases aborted <;> simp_all))
  | failed b us ue f => exact .failed b us ue f

def Accounts (ms : List Mark) (mode : DispatchMode) (aborted : Bool) (phase : WorkerPhase) (b : Option Batch) : Prop :=
  ∃ us ue, Balance ms us ue ∧ Left mode aborted phase b us ue

namespace Accounts

variable {ms : List Mark} {mode : DispatchMode} {aborted aborted' : Bool} {phase : WorkerPhase} {b : Option Batch}

theorem append (h : Accounts ms mode aborted phase b) {ns : List Mark} (hb : begun ns = []) (hs : started ns = [])
    (hf : finished ns = []) : Accounts (ms ++ ns) mode aborted phase b := by
  obtain ⟨us, ue, h, hl⟩ := h
  exact ⟨us, ue, h.append hb hs hf, hl⟩

theorem silent (h : Accounts ms mode aborted phase b) {es : List Event} (hs : ∀ e ∈ es, e.silent) :
    Accounts (ms ++ es.map .event) mode aborted phase b :=
  h.append (by simp) (by simp [Event.given_silent hs]) (by simp [Event.concluded_silent hs])

theorem mono (h : Accounts ms mode aborted phase b) (ha : aborted → aborted') : Accounts ms mode aborted' phase b := by
  obtain ⟨us, ue, h, hl⟩ := h
  exact ⟨us, ue, h, hl.mono ha⟩

theorem waiting (h : Accounts ms mode aborted .waiting b) : Balance ms [] [] := by
  obtain ⟨us, ue, h, hl⟩ := h
  cases hl
  exact h

theorem dispatching {d : Dispatch} (h : Accounts ms mode aborted (.dispatching d) none) :
    Balance ms d.unstarted d.unended ∧ Dispatch.Separate Lane.unended d.lanes := by
  obtain ⟨us, ue, h, hl⟩ := h
  cases hl with
  | dispatching _ hd => exact ⟨h, hd⟩

theorem look (h : Accounts ms mode aborted phase b) (hp : phase ≠ .stopped) (hf : ∀ f, phase ≠ .failed f) :
    Accounts (ms ++ b.toList.map .begun) mode aborted phase none := by
  obtain ⟨us, ue, h, hl⟩ := h
  cases hl with
  | waiting => exact ⟨[], [], by simpa using h, .waiting⟩
  | taken b => exact ⟨_, _, h.begin mode b, .dispatching _ (Dispatch.separate_begin mode b)⟩
  | dispatching d hd => exact ⟨_, _, by simpa using h, .dispatching d hd⟩
  | stopped => exact absurd rfl hp
  | failed _ _ _ f => exact absurd rfl (hf f)

end Accounts

/-- A position stands behind a record of the invocation that ended last, and of its partition the dispatch has ended
the records that were polled first. What was dropped comes behind them. -/
structure Covered (ms : List Mark) (q : Position) : Prop where
  last : ∃ i, (finished ms).getLast? = some i ∧ Batch.IsNext i.records q
  passed : ∃ rest, q.partition.part (polled ms) = q.partition.part (completed ms) ++ rest ∧
    (q.partition.part (dropped ms).flatten).Sublist rest

def Faithful (ms : List Mark) : Prop :=
  ∀ pre ps post, ms = pre ++ .event (.handed ps) :: post → ∀ q ∈ ps, Covered pre q

namespace Faithful

theorem append {ms ns : List Mark} (h : Faithful ms) (hn : ∀ ps, .event (.handed ps) ∉ ns) : Faithful (ms ++ ns) := by
  intro pre ps post he
  rcases List.append_eq_append_iff.mp he with ⟨as, -, hns⟩ | ⟨_ | ⟨x, bs⟩, hms, hx⟩
  · exact (hn ps (by simp [hns])).elim
  · rw [List.nil_append] at hx
    exact (hn ps (by simp [← hx])).elim
  · obtain ⟨rfl, -⟩ := List.cons.inj hx
    exact h pre ps bs hms

theorem silent {ms : List Mark} {es : List Event} (h : Faithful ms) (hs : ∀ e ∈ es, e.silent) :
    Faithful (ms ++ es.map .event) :=
  h.append (fun ps hm => Event.handed_silent hs ps (by simpa using hm))

theorem snoc {ms : List Mark} {qs : List Position} (h : Faithful ms) (hq : ∀ q ∈ qs, Covered ms q) :
    Faithful (ms ++ [.event (.handed qs)]) := by
  intro pre ps post he
  rcases List.append_eq_append_iff.mp he with ⟨as, hpre, hx⟩ | ⟨_ | ⟨x, bs⟩, hms, hx⟩
  · rcases List.singleton_eq_append_iff.mp hx with ⟨rfl, hx⟩ | ⟨-, hx⟩
    · obtain ⟨he, -⟩ := List.cons.inj hx
      cases he
      simpa [hpre] using hq
    · simp at hx
  · obtain ⟨he, -⟩ := List.cons.inj hx
    cases he
    simpa [hms] using hq
  · obtain ⟨rfl, -⟩ := List.cons.inj hx
    exact h pre ps bs hms

end Faithful

theorem covered_of_balance {ms : List Mark} {us ue : List Record} {tail : List Batch} {i : Invocation} {q : Position}
    {load : List Record} (hb : Balance ms us ue) (hp : polled ms = (sent ms).flatten ++ load)
    (ht : sent ms = begun ms ++ tail) (hd : (dropped ms).Sublist tail) (hi : (finished ms).getLast? = some i)
    (hq : Batch.IsNext i.records q) : Covered ms q := by
  refine ⟨⟨i, hi, hq⟩, q.partition.part ue ++ q.partition.part (tail.flatten ++ load), ?_, ?_⟩
  · rw [hp, ht, ← List.append_assoc, hb.completed]
    simp
  · refine (List.Sublist.filter _ ?_).trans (List.sublist_append_right _ _)
    exact hd.flatten.trans (List.sublist_append_left _ _)

namespace Pipeline

variable {β : Type}

/-- All that is kept through the steps of a listener. -/
structure Sound (s : Pipeline β) : Prop where
  orderly : Orderly s
  attentive : s.attending → s.taken = none
  accounted : Accounts s.marks s.worker.mode s.listener.abortRequested s.worker.phase s.taken
  faithful : Faithful s.marks

theorem Sound.silent {s s' : Pipeline β} (h : Sound s) (es : List Event) (hs : ∀ e ∈ es, e.silent)
    (hm : s'.marks = s.marks ++ es.map .event) (hl : s'.loop = s.loop) (ht : s'.taken = s.taken)
    (hq : s'.queue = s.queue) (hw : s'.worker = s.worker) (ha : s'.attending → s.attending)
    (hb : s.listener.abortRequested → s'.listener.abortRequested) : Sound s' where
  orderly := h.orderly.congr es hm hl ht hq hb (by simp [hw])
  attentive hat := ht ▸ h.attentive (ha hat)
  accounted := by
    rw [hm, hw, ht]
    exact (h.accounted.silent hs).mono hb
  faithful := hm ▸ h.faithful.silent hs

theorem Sound.input {s : Pipeline β} (h : Sound s) {a : WorkerInput}
    (ha : ∀ w es, s.worker.Effect a w es → (∀ e ∈ es, e.silent) ∧
      Accounts s.marks s.worker.mode s.listener.abortRequested w.phase s.taken) : Sound (s.input a) := by
  obtain ⟨hs, hacc⟩ := ha _ _ (s.worker.step_effect a)
  refine ⟨h.orderly.input a, h.attentive, ?_, h.faithful.silent hs⟩
  have hm := s.worker.mode_step a
  simpa only [Pipeline.input, hm] using hacc.silent hs

theorem Sound.abort {s : Pipeline β} (h : Sound s) (ha : s.listener.abortRequested) : Sound (s.input .abort) := by
  apply h.input
  intro w es he
  cases he with
  | idle => exact ⟨by simp, h.accounted⟩
  | aborts why =>
      -- an abort leaves undone what is left, whatever that is
      obtain ⟨us, ue, hb, -⟩ := h.accounted
      exact ⟨s.worker.silent_stop [why], us, ue, hb, .stopped _ us ue (by simp [ha])⟩

theorem Sound.look {s : Pipeline β} (h : Sound s) : Sound s.look := by
  have ho := h.orderly.look
  rw [Pipeline.look] at ho ⊢
  split
  · exact h
  · next hw =>
      split
      · next ha => exact h.abort ha
      · next ha =>
          simp only [hw, ha] at ho
          refine ⟨ho, fun _ => rfl, h.accounted.look ?_ ?_, h.faithful.append (by simp)⟩
          · intro hp
            simp [Worker.ended, hp] at hw
          · intro f hp
            simp [Worker.ended, hp] at hw

theorem Sound.receive {s : Pipeline β} (h : Sound s) : Sound s.receive := by
  have ho := h.orderly.receive h.attentive
  rw [Pipeline.receive] at ho ⊢
  split
  · next ha hp =>
      have ht := h.attentive ha
      have hacc := h.accounted
      rw [hp] at hacc
      simp only [ha, hp] at ho
      split
      · next q b hq =>
          simp only [hq] at ho
          refine ⟨ho, by simp [Pipeline.input], ?_, ?_⟩
          · exact ⟨[], [], by simpa [Pipeline.input, Worker.step, hp] using hacc.waiting,
              by simpa [Pipeline.input, Worker.step, hp] using .taken b⟩
          · simpa [Pipeline.input, Worker.step, hp] using h.faithful
      · exact h.silent [] (by simp) (by simp) rfl rfl rfl rfl (by simp) id
      · apply h.input
        intro w es he
        cases he with
        | idle => exact ⟨by simp, h.accounted⟩
        | ends => exact ⟨s.worker.silent_stop [], [], [], hacc.waiting, .stopped _ [] [] (fun _ => ⟨rfl, rfl⟩)⟩
  · exact h

theorem Sound.complete {s : Pipeline β} (h : Sound s) : Sound s.complete := by
  rw [Pipeline.complete]
  split
  · next hg =>
      have ht := h.attentive (by simp_all)
      have hi : Sound (s.input .complete) := by
        apply h.input
        intro w es he
        cases he with
        | idle => exact ⟨by simp, h.accounted⟩
        | completes d hp hd =>
            have hacc := h.accounted
            rw [hp, ht] at hacc
            obtain ⟨hb, -⟩ := hacc.dispatching
            obtain ⟨hs, he⟩ := Dispatch.todo_done hd
            rw [hs, he] at hb
            exact ⟨by simp, [], [], hb, ht ▸ .waiting⟩
      exact hi.silent [] (by simp) (by simp) rfl rfl rfl rfl (by simp) id
  · exact h

theorem Sound.faithful_drive {s : Pipeline β} (h : Sound s) {d d' : Dispatch} {es : List Event}
    (hb : Balance (s.marks ++ es.map .event) d'.unstarted d'.unended) (he : Dispatch.Effect d d' es) :
    Faithful (s.marks ++ es.map .event) := by
  cases he with
  | quiet hl hf => simpa using h.faithful
  | faults i l job rest f _ _ _ hl => simpa using h.faithful
  | starts i l job rest _ _ _ hl hf => exact h.faithful.append (by simp)
  | finishes i l job o _ _ hl hf =>
      rw [Dispatch.endEvents, List.map_append, ← List.append_assoc] at hb ⊢
      obtain ⟨tail, ht, hd⟩ := h.orderly.gap
      have hn : Faithful (s.marks ++ (d.endReport job o).map .event) :=
        h.faithful.append (by simpa using d.handed_endReport job o)
      apply hn.snoc
      intro q hq
      have hlast : (finished (s.marks ++ (d.endReport job o).map .event)).getLast? = some job := by
        simp [d.concluded_endReport]
      refine covered_of_balance hb.of_handed (by simpa using h.orderly.loaded) (by simpa using ht) (by simpa using hd)
        hlast ?_
      cases hp : job.positions with
      | error f => simp [hp, Except.toOption] at hq
      | ok ps => exact Batch.nextPositions_isNext hp (by simpa [hp, Except.toOption] using hq)

theorem Sound.drive {s : Pipeline β} (h : Sound s) (x : Drive) : Sound (s.drive x) := by
  rw [Pipeline.drive]
  split
  · next hg =>
      have ht := h.attentive (by simp_all)
      suffices hi : Sound (s.input (.drive x)) from hi.silent [] (by simp) (by simp) rfl rfl rfl rfl id id
      by_cases hp : ∃ d, s.worker.phase = .dispatching d
      · obtain ⟨d, hp⟩ := hp
        have hacc := h.accounted
        rw [hp, ht] at hacc
        obtain ⟨hb, hd⟩ := hacc.dispatching
        obtain ⟨hb', hd'⟩ := hb.step hd (d.step_effect x)
        refine ⟨h.orderly.input _, h.attentive, ⟨(d.step x).1.unstarted, (d.step x).1.unended, ?_, ?_⟩, ?_⟩
        · simpa only [Pipeline.input, Worker.step_drive hp] using hb'
        · simp only [Pipeline.input, Worker.step_drive hp, Worker.reached, ht]
          split
          · exact .failed _ _ _ _
          · exact .dispatching _ hd'
        · simpa only [Pipeline.input, Worker.step_drive hp] using h.faithful_drive hb' (d.step_effect x)
      · apply h.input
        intro w es he
        cases he with
        | idle => exact ⟨by simp, h.accounted⟩
        | drives d _ hd => exact absurd ⟨d, hd⟩ hp
  · exact h

theorem start_ok {l : Listener} {t : Tracker} {b : β} {s : Pipeline β} (h : start l t b = .ok s) :
    ∃ q : BatchQueue, BatchQueue.make l.settings.capacity = .ok q ∧
      s = { listener := { l with running := true }, loop := (Ingestion.start l.settings).1, queue := q,
            worker := (Worker.start l.settings.dispatch).1, call := { mode := l.settings.commit }, tracker := t,
            broker := b } := by
  rw [start, Listener.start] at h
  split at h
  · simp [Except.map] at h
  · split at h
    · simp [Except.map] at h
    · split at h
      · simp [Except.map] at h
      · simp [Except.map] at h
      · simp [Except.map] at h
      · next q a hq ha hn => exact ⟨q, hq, by simpa [Except.map, eq_comm] using h⟩

theorem sound_start {l : Listener} {t : Tracker} {b : β} {s : Pipeline β} (h : start l t b = .ok s) : Sound s := by
  obtain ⟨q, hq, rfl⟩ := start_ok h
  have hq : q.items = [] ∧ q.closed = false := by
    rw [BatchQueue.make] at hq
    split at hq
    · simp at hq
    · split at hq
      · simp at hq
      · cases hq
        exact ⟨rfl, rfl⟩
  refine ⟨⟨rfl, ⟨[], ?_, by simp⟩, ⟨[], rfl, .slnil⟩, ?_, ?_⟩, ?_, ?_, ?_⟩
  · simp [hq.1, queued, begun]
  · simp [dropped]
  · simp [hq.2]
  · simp
  · exact ⟨[], [], ⟨fun _ => rfl, fun _ => rfl⟩, .waiting⟩
  · simp [Faithful]

variable [Broker β]

theorem Sound.ask {s : Pipeline β} (h : Sound s) (now : Nat) (heard : Bool) : Sound (s.ask now heard) := by
  have ho := h.orderly.ask now heard
  rw [Pipeline.ask] at ho ⊢
  split
  · exact h
  · next q hq =>
      simp only [hq] at ho
      have hbegun := s.loop.begun_marks (s.reply now heard q).2
      have hevents := s.loop.events_marks (s.reply now heard q).2
      refine ⟨ho, ?_, ?_, ?_⟩
      · simpa [hear] using h.attentive
      · simpa [hear] using h.accounted.append hbegun (by simp [started, hevents]) (by simp [finished, hevents])
      · simp only [hear, reply_marks, reply_loop]
        apply h.faithful.append
        intro ps hm
        have := mem_events _ |>.mpr hm
        simp [hevents] at this

theorem Sound.move {s : Pipeline β} (h : Sound s) (m : Move β) : Sound (s.move m) := by
  cases m with
  | ask now heard => exact h.ask now heard
  | look => exact h.look
  | receive => exact h.receive
  | drive a => exact h.drive a
  | complete => exact h.complete
  | commit => exact h.silent _ (s.call.step_silent s.tracker s.broker) rfl rfl rfl rfl rfl id id
  | rest =>
      simp only [Pipeline.move, Pipeline.rest]
      split
      · exact h.silent [] (by simp) (by simp) rfl rfl rfl rfl (by simp) id
      · exact h
  | leave =>
      have ho := h.orderly.leave
      simp only [Pipeline.move, Pipeline.leave] at ho ⊢
      split
      · next hw => exact ⟨by simpa [hw] using ho, h.attentive, h.accounted, h.faithful⟩
      · exact h
  | requestStop => exact h.silent [] (by simp) (by simp [Pipeline.move]) rfl rfl rfl rfl id id
  | abort => exact h.silent [] (by simp) (by simp [Pipeline.move]) rfl rfl rfl rfl id (by simp [Pipeline.move])
  | elsewhere f => exact h.silent [] (by simp) (by simp [Pipeline.move]) rfl rfl rfl rfl id id

theorem Sound.run {s : Pipeline β} (h : Sound s) (ms : List (Move β)) : Sound (s.run ms) :=
  run_invariant (fun _ m h => h.move m) h ms

/-- Whatever the order of the steps, what has been begun is what was polled first, and of what was polled and dropped
nothing is begun. A position is handed over only when it is covered. -/
theorem at_least_once {l : Listener} {t : Tracker} {b : β} {s : Pipeline β} (h : start l t b = .ok s)
    (ms : List (Move β)) :
    (∃ rest, polled (s.run ms).marks = (begun (s.run ms).marks).flatten ++ rest ∧
      ((dropped (s.run ms).marks).flatten).Sublist rest) ∧
    ∀ pre ps post, (s.run ms).marks = pre ++ .event (.handed ps) :: post → ∀ q ∈ ps, Covered pre q := by
  have hs := (sound_start h).run ms
  obtain ⟨tail, ht, hd⟩ := hs.orderly.gap
  refine ⟨⟨tail.flatten ++ (s.run ms).loop.load, ?_, ?_⟩, hs.faithful⟩
  · rw [hs.orderly.loaded, ht]
    simp
  · exact hd.flatten.trans (List.sublist_append_left _ _)

def narrow : Listener := { settings := { ListenerSettings.forTopic "events" with maxBatch := 1, capacity := 1 } }

def threeRecords : Connection := ⟨{ topic := "events", logs := [{ values := [[], [], []] }] }, { group := "readers" }⟩

/-- The first record is processed, the second is queued, and the third is dropped at the abort. -/
def aborted : List (Move Connection) :=
  List.replicate 6 (.ask 0 true) ++ [.look, .receive, .look, .drive (.turn 0), .drive (.ended .ok), .commit, .commit,
    .complete, .look] ++ List.replicate 7 (.ask 0 true) ++ [.abort] ++ List.replicate 4 (.ask 0 true) ++ [.rest, .look]

theorem at_least_once_aborted : ∃ s, start narrow {} threeRecords = .ok s ∧
    (∃ rest, polled (s.run aborted).marks = (begun (s.run aborted).marks).flatten ++ rest ∧
      ((dropped (s.run aborted).marks).flatten).Sublist rest) ∧
    (∀ pre ps post, (s.run aborted).marks = pre ++ .event (.handed ps) :: post → ∀ q ∈ ps, Covered pre q) ∧
    .event (.handed [⟨⟨"events", 0⟩, 1⟩]) ∈ (s.run aborted).marks ∧ (dropped (s.run aborted).marks).length = 1 := by
  have hname : Fault.ofThreadName? narrow.threadName = none := by decide +kernel
  have hstart : ∃ s, start narrow {} threeRecords = .ok s ∧ .event (.handed [⟨⟨"events", 0⟩, 1⟩]) ∈ (s.run aborted).marks ∧
      (dropped (s.run aborted).marks).length = 1 := by
    rw [start, Listener.start]
    rw [hname]
    exact ⟨_, rfl, by decide +kernel, by decide +kernel⟩
  obtain ⟨s, hs, hhanded, hdropped⟩ := hstart
  obtain ⟨hbegun, hcovered⟩ := at_least_once hs aborted
  exact ⟨s, hs, hbegun, hcovered, hhanded, hdropped⟩

end Pipeline

end StreamTrigger
