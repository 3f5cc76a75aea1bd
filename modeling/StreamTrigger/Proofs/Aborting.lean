import StreamTrigger.Proofs.AtLeastOnce
import StreamTrigger.Proofs.Course
import StreamTrigger.Proofs.Moves
import Mathlib.Data.List.Forall2

namespace StreamTrigger

open Trace

def Event.call? : Event → Option (List Position)
  | handed qs => some qs
  | _ => none

def Trace.calls (ms : List Mark) : List (List Position) := (events ms).filterMap Event.call?

@[simp] theorem Trace.calls_append (ms ns : List Mark) : calls (ms ++ ns) = calls ms ++ calls ns := by simp [calls]

theorem Event.calls_silent {es : List Event} (h : ∀ e ∈ es, e.silent) : es.filterMap call? = [] :=
  List.filterMap_eq_nil_iff.mpr (fun e he => by have := h e he; cases e <;> simp_all [call?, silent])

/-- The positions of an invocation: the one behind its record, or one for each partition of its batch, behind the
highest offset there. -/
def Invocation.Settled : Invocation → List Position → Prop
  | .single r, qs => qs = [⟨r.partition, r.offset + 1⟩]
  | .batch rs, qs => (qs.map Position.partition).Nodup ∧ (∀ q ∈ qs, Batch.IsNext rs q) ∧
      ∀ r ∈ rs, ∃ q ∈ qs, q.partition = r.partition

theorem Invocation.settled_of_ok {i : Invocation} {qs : List Position} (h : i.positions = .ok qs) : i.Settled qs := by
  cases i with
  | single r => exact (Batch.nextPositions_eq h).trans (Invocation.next_single r)
  | batch rs =>
      exact ⟨Batch.nextPositions_nodup h, fun q hq => Batch.nextPositions_isNext h hq, fun r hr =>
        List.mem_map.mp (Batch.nextPositions_total h hr)⟩

namespace Dispatch

variable {d : Dispatch}

theorem calls_endEvents (d : Dispatch) {job : Invocation} {qs : List Position} (h : job.positions = .ok qs) (o : Outcome) :
    (d.endEvents job o).filterMap Event.call? = [qs] := by
  simp [endEvents, endReport, List.filterMap_cons, List.filterMap_map, Function.comp_def, Event.call?, h, Except.toOption]

structure Underway (d : Dispatch) : Prop extends Orderly d where
  faultless : d.fault = none

theorem underway_begin (mode : DispatchMode) (b : Batch) : Underway (begin mode b) := ⟨orderly_begin mode b, rfl⟩

theorem Underway.step (h : Underway d) (a : Drive) (hf : (d.step a).1.fault = none) : Underway (d.step a).1 :=
  ⟨h.toOrderly.effect (d.step_effect a), hf⟩

end Dispatch

namespace Pipeline

variable {β : Type}

def ahead (s : Pipeline β) : List Act :=
  match s.taken, s.worker.phase with
  | none, .dispatching d => d.ahead
  | _, _ => []

theorem ahead_taken {s : Pipeline β} {b : Batch} (h : s.taken = some b) : s.ahead = [] := by simp [ahead, h]

theorem ahead_waiting {s : Pipeline β} (h : s.worker.phase = .waiting) : s.ahead = [] := by simp [ahead, h]

theorem ahead_dispatching {s : Pipeline β} {d : Dispatch} (ht : s.taken = none) (hp : s.worker.phase = .dispatching d) :
    s.ahead = d.ahead := by simp [ahead, ht, hp]

/-- With what is left, each partition is seen as in the dispatch of the batches that were begun. What an ended worker
leaves is not seen any more. -/
def OnCourse (s : Pipeline β) : Prop :=
  ∃ left : List Act, (s.worker.ended = false → left = s.ahead) ∧ ∀ p : Partition,
    p.acts (events s.marks) ++ left.filter (Act.touches p) = (begun s.marks).flatMap (p.course s.worker.mode)

theorem OnCourse.ahead {s : Pipeline β} (h : OnCourse s) (hn : s.worker.ended = false) (p : Partition) :
    p.acts (events s.marks) ++ s.ahead.filter (Act.touches p) = (begun s.marks).flatMap (p.course s.worker.mode) := by
  obtain ⟨left, hleft, hcourse⟩ := h
  rw [← hleft hn, hcourse]

structure Clean (s : Pipeline β) : Prop where
  sound : Sound s
  course : OnCourse s
  underway : ∀ d, s.worker.phase = .dispatching d → d.Underway
  settled : List.Forall₂ (fun i qs => i.positions = .ok qs) (finished s.marks) (calls s.marks)
  busy : s.call.done = false → s.attending ∧ ∃ d, s.worker.phase = .dispatching d

theorem Sound.taken {s : Pipeline β} (h : Sound s) {b : Batch} (ht : s.taken = some b) (hn : s.worker.ended = false) :
    s.worker.phase = .dispatching (.begin s.worker.mode b) := by
  obtain ⟨_, _, -, hl⟩ := h.accounted
  rw [ht] at hl
  generalize hp : s.worker.phase = phase at hl
  cases hl with
  | taken => rfl
  | stopped | failed => simp [Worker.ended, hp] at hn

namespace Clean

variable {s s' : Pipeline β}

theorem step_course (h : Clean s) (hst : Step s s') : OnCourse s' := by
  rw [OnCourse, hst.mode]
  cases hst with
  | aside ns hw ht hm hb he =>
      obtain ⟨left, hleft, hcourse⟩ := h.course
      refine ⟨left, by simpa [ahead, hw, ht] using hleft, fun p => ?_⟩
      simpa [hm, hb, p.acts_silent he] using hcourse p
  | stops why hn _ hw ht hm =>
      obtain ⟨left, -, hcourse⟩ := h.course
      refine ⟨left, by simp [hw, Worker.stop, Worker.ended], fun p => ?_⟩
      simpa [hm, p.acts_silent (s.worker.silent_stop why)] using hcourse p
  | begins _ hn _ hw ht hm =>
      have hcourse := h.course.ahead hn
      have hevents : events s'.marks = events s.marks := by simp [hm]
      have hbegun : begun s'.marks = begun s.marks ++ s.taken.toList := by simp [hm]
      refine ⟨s'.ahead, fun _ => rfl, fun p => ?_⟩
      rw [hevents, hbegun]
      cases htaken : s.taken with
      | none =>
          have hsame : s'.ahead = s.ahead := by simp [Pipeline.ahead, hw, ht, htaken]
          simpa [hsame] using hcourse p
      | some b =>
          have hp : s'.worker.phase = .dispatching (.begin s.worker.mode b) := by
            rw [hw]
            exact h.sound.taken htaken hn
          simpa [ahead_taken htaken, ahead_dispatching ht hp, Dispatch.ahead_begin] using hcourse p
  | takes b _ hp hw ht hm =>
      have hcourse := h.course.ahead (by simp [Worker.ended, hp])
      exact ⟨[], fun _ => (ahead_taken ht).symm, fun p => by simpa [hm, ahead_waiting hp] using hcourse p⟩
  | drives d a ha _ hp hw ht _ hm =>
      have hnone := h.sound.attentive ha
      have hcourse := h.course.ahead (by simp [Worker.ended, hp])
      obtain ⟨hsep, hknown⟩ := (h.underway d hp).toOrderly
      -- a fault ends the worker, and what is ahead then is left for good
      refine ⟨(d.step a).1.ahead, fun hn => ?_, fun p => ?_⟩
      · cases hf : (d.step a).1.fault with
        | none => exact (ahead_dispatching (ht.trans hnone) (by simp [hw, Worker.reached, hf])).symm
        | some f => simp [hw, Worker.ended, Worker.reached, hf] at hn
      · have hcourse := hcourse p
        rw [ahead_dispatching hnone hp, Dispatch.ahead_step hsep hknown (d.step_effect a) p] at hcourse
        simpa [hm] using hcourse
  | completes d ha _ hp hdone hphase _ ht hm =>
      have hcourse := h.course.ahead (by simp [Worker.ended, hp])
      rw [ahead_dispatching (h.sound.attentive ha) hp, Dispatch.ahead_done hdone] at hcourse
      exact ⟨[], fun _ => (ahead_waiting hphase).symm, fun p => by simpa [hm] using hcourse p⟩

theorem step_underway (h : Clean s) (hst : Step s s') {d : Dispatch} (hd : s'.worker.phase = .dispatching d) : d.Underway := by
  cases hst with
  | aside _ hw | begins _ _ _ hw => exact h.underway d (hw ▸ hd)
  | stops why _ _ hw => simp [hw, Worker.stop] at hd
  | takes b _ _ hw =>
      obtain rfl : .begin s.worker.mode b = d := by simpa [hw] using hd
      exact Dispatch.underway_begin _ _
  | drives d' a _ _ hp hw =>
      cases hf : (d'.step a).1.fault with
      | none =>
          obtain rfl : (d'.step a).1 = d := by simpa [hw, Worker.reached, hf] using hd
          exact (h.underway d' hp).step a hf
      | some f => simp [hw, Worker.reached, hf] at hd
  | completes _ _ _ _ _ hphase => simp [hphase] at hd

theorem step_settled (h : Clean s) (hst : Step s s') :
    List.Forall₂ (fun i qs => i.positions = .ok qs) (finished s'.marks) (calls s'.marks) := by
  have hsilent (ns : List Mark) (he : ∀ e ∈ events ns, e.silent) : finished ns = [] ∧ calls ns = [] :=
    ⟨Event.concluded_silent he, Event.calls_silent he⟩
  cases hst with
  | aside ns _ _ hm _ he => simpa [hm, hsilent ns he] using h.settled
  | stops why _ _ _ _ hm =>
      have he := hsilent ((s.worker.stop why).2.map .event) (by simpa using s.worker.silent_stop why)
      simpa [hm, he] using h.settled
  | begins _ _ _ _ _ hm => simpa [hm, hsilent (s.taken.toList.map .begun) (by simp)] using h.settled
  | takes _ _ _ _ _ hm | completes _ _ _ _ _ _ _ _ hm => exact hm ▸ h.settled
  | drives d a _ _ hp _ _ _ hm =>
      have hknown := (h.underway d hp).known
      have he := d.step_effect a
      rw [hm, finished_append, calls_append]
      generalize (d.step a).1 = d', (d.step a).2 = es at he
      refine List.rel_append h.settled ?_
      cases he with
      | quiet | faults => exact .nil
      | starts => exact .nil
      | finishes i l job o hi hr =>
          obtain ⟨qs, hqs⟩ := hknown l (List.mem_of_getElem? hi) job (by simp [Lane.current, hr])
          rw [finished_map_event, calls, events_map_event, d.concluded_endEvents, d.calls_endEvents hqs]
          exact .cons hqs .nil

theorem step_busy (h : Clean s) (hst : Step s s') (hc : s'.call.done = false) :
    s'.attending ∧ ∃ d, s'.worker.phase = .dispatching d := by
  have hidle : s.attending = false ∨ s.worker.phase = .waiting → s.call.done := by
    intro hno
    by_contra hc
    obtain ⟨ha, d, hp⟩ := h.busy (by simpa using hc)
    simp [ha, hp] at hno
  cases hst with
  | aside ns hw ht hm hb he hd ha =>
      have hcall : s.call.done = false := by
        by_contra hdone
        simp [(hd (by simpa using hdone)).1] at hc
      obtain ⟨hatt, d, hp⟩ := h.busy hcall
      exact ⟨(ha hatt).resolve_right (by simp [hcall, hp]), d, hw ▸ hp⟩
  | stops _ _ hno _ _ _ hcall => simp [hcall, hidle hno] at hc
  | begins _ _ ha _ _ _ hcall => simp [hcall, hidle (.inl ha)] at hc
  | takes _ _ hp _ _ _ hcall => simp [hcall, hidle (.inr hp)] at hc
  | completes _ _ hd _ _ _ _ _ _ hcall => simp [hcall, hd] at hc
  | drives d a _ hd hp hw _ hatt _ hcall =>
      -- where positions are handed over a callback has ended, and that is no fault
      refine ⟨hatt, (d.step a).1, ?_⟩
      have hfault := (h.underway d hp).faultless
      have he := d.step_effect a
      rw [hw]
      rw [hcall] at hc
      generalize (d.step a).1 = d', (d.step a).2 = es at he hc ⊢
      cases he with
      | quiet | faults | starts => simp_all [CommitCall.done, Event.handedOver]
      | finishes i l job o hi hr hl hf => simp [Worker.reached, hf, hfault]

variable [Broker β]

theorem move (h : Clean s) (m : Move β) : Clean (s.move m) where
  sound := h.sound.move m
  course := h.step_course (s.move_step m)
  underway _ := h.step_underway (s.move_step m)
  settled := h.step_settled (s.move_step m)
  busy := h.step_busy (s.move_step m)

theorem run (h : Clean s) (ms : List (Move β)) : Clean (s.run ms) := run_invariant (fun _ m h => h.move m) h ms

end Clean

section After

variable [Broker β] {s : Pipeline β}

/-- Nothing is begun once an abort is requested. -/
theorem begun_aborted (h : s.listener.abortRequested) (ms : List (Move β)) : begun (s.run ms).marks = begun s.marks := by
  suffices hrun : (s.run ms).listener.abortRequested ∧ begun (s.run ms).marks = begun s.marks from hrun.2
  refine run_invariant (P := fun t => t.listener.abortRequested ∧ begun t.marks = begun s.marks) ?_ ⟨h, rfl⟩ ms
  rintro t m ⟨ha, hb⟩
  constructor
  · rw [listener_move]
    cases m with
    | abort => rfl
    | _ => exact ha
  · rw [← hb]
    cases t.move_step m with
    | aside ns _ _ hm hnone => simp [hm, hnone]
    | stops _ _ _ _ _ hm | drives _ _ _ _ _ _ _ _ hm => simp [hm]
    | takes _ _ _ _ _ hm | completes _ _ _ _ _ _ _ _ hm => rw [hm]
    | begins hn => simp [ha] at hn

theorem events_ended (h : s.worker.ended) (hc : s.call.done) (ms : List (Move β)) :
    events (s.run ms).marks = events s.marks ∧ begun (s.run ms).marks = begun s.marks := by
  suffices hrun : (s.run ms).worker.ended ∧ (s.run ms).call.done ∧
    events (s.run ms).marks = events s.marks ∧ begun (s.run ms).marks = begun s.marks from hrun.2.2
  refine run_invariant (P := fun t => t.worker.ended ∧ t.call.done ∧
    events t.marks = events s.marks ∧ begun t.marks = begun s.marks) ?_ ⟨h, hc, rfl, rfl⟩ ms
  rintro t m ⟨hended, hdone, hevents, hbegun⟩
  rw [← hevents, ← hbegun]
  cases t.move_step m with
  | aside ns hw _ hm hb _ hd =>
      obtain ⟨hdone, hnone⟩ := hd hdone
      exact ⟨hw ▸ hended, hdone, by simp [hm, hnone], by simp [hm, hb]⟩
  | stops _ hn | begins _ hn => simp [hended] at hn
  | takes _ _ hp | drives _ _ _ _ hp | completes _ _ _ hp => simp [Worker.ended, hp] at hended

end After

def ready (l : Listener) (q : BatchQueue) (t : Tracker) (b : β) : Pipeline β where
  listener := l
  loop := (Ingestion.start l.settings).1
  queue := q
  worker := (Worker.start l.settings.dispatch).1
  call := { mode := l.settings.commit }
  tracker := t
  broker := b
  marks := q.items.flatMap (fun b => b.map .polled ++ [.queued b])

section Ready

variable (l : Listener) {q : BatchQueue} (t : Tracker) (b : β)

theorem marks_content (bs : List Batch) :
    let ms : List Mark := bs.flatMap (fun b => b.map .polled ++ [.queued b])
    polled ms = bs.flatten ∧ queued ms = bs ∧ sent ms = bs ∧ begun ms = [] ∧ dropped ms = [] ∧ events ms = [] := by
  have hnone (b : Batch) : b.flatMap (fun _ => ([] : List Batch)) = [] := by simp
  simp [polled, queued, sent, begun, dropped, events, List.flatMap_assoc, List.flatMap_map, hnone]

theorem sound_ready (hq : q.closed = false) : Sound (ready l q t b) := by
  obtain ⟨hpolled, hqueued, hsent, hbegun, hdropped, hevents⟩ := marks_content q.items
  refine ⟨⟨?loaded, ⟨[], ?inLine, by simp⟩, ⟨q.items, ?gap, ?dropped⟩, ?broken, ?closed⟩, by simp [ready], ?accounted, ?faithful⟩
  case loaded => simp [ready, hpolled, hsent, Ingestion.start, Ingestion.load]
  case inLine => simp [ready, hqueued, hbegun]
  case gap => simp [ready, hsent, hbegun]
  case dropped => simp [ready, hdropped]
  case broken => simp [ready, hdropped]
  case closed => simp [ready, hq]
  case accounted =>
    refine ⟨[], [], ⟨fun p => ?_, fun p => ?_⟩, .waiting⟩
    · simp [ready, started, hevents, hbegun]
    · simp [ready, completed, finished, hevents, hbegun]
  case faithful =>
    intro pre ps post he
    have hm : Event.handed ps ∈ events (ready l q t b).marks := (mem_events _).mpr (by simp [he])
    simp [ready, hevents] at hm

theorem clean_ready (hq : q.closed = false) : Clean (ready l q t b) := by
  obtain ⟨-, -, -, hbegun, -, hevents⟩ := marks_content q.items
  refine ⟨sound_ready l t b hq, ⟨[], fun _ => rfl, fun p => ?_⟩, ?_, ?_, ?_⟩
  · simp [ready, hbegun, hevents, Partition.acts]
  · simp [ready, Worker.start]
  · simp [ready, finished, calls, hevents]
  · simp [ready, CommitCall.done]

end Ready

variable [Broker β]

/-- However the worker is aborted, the invocations that completed are those whose positions were handed over, each in
turn. A partition is seen as the beginning of what it would be without the abort. Nothing is begun behind the request,
and once the worker has ended its commits are through and nothing more is seen of it. -/
theorem abort_is_clean (l : Listener) {q : BatchQueue} (hq : q.closed = false) (t : Tracker) (b : β) (ms : List (Move β))
    {s : Pipeline β} (hs : (ready l q t b).run ms = s) :
    List.Forall₂ Invocation.Settled (finished s.marks) (calls s.marks) ∧
    (∀ p : Partition, p.acts (events s.marks) <+: (queued s.marks).flatMap (p.course l.settings.dispatch)) ∧
    (s.listener.abortRequested → ∀ ms', begun (s.run ms').marks = begun s.marks) ∧
    (s.worker.ended → s.call.done ∧ ∀ ms', events (s.run ms').marks = events s.marks ∧
      begun (s.run ms').marks = begun s.marks) := by
  have hclean : Clean s := hs ▸ (clean_ready l t b hq).run ms
  have hmode : s.worker.mode = l.settings.dispatch := hs ▸ mode_run _ ms
  refine ⟨hclean.settled.imp (fun _ _ h => Invocation.settled_of_ok h), fun p => ?_, fun ha ms' => begun_aborted ha ms',
    fun hended => ?_⟩
  · obtain ⟨left, -, hcourse⟩ := hclean.course
    obtain ⟨lost, hline, -⟩ := hclean.sound.orderly.inLine
    rw [hline, List.append_assoc, List.append_assoc, List.flatMap_append, ← hmode, ← hcourse p, List.append_assoc]
    exact List.prefix_append _ _
  · have hdone : s.call.done := by
      by_contra hc
      obtain ⟨-, d, hp⟩ := hclean.busy (by simpa using hc)
      simp [Worker.ended, hp] at hended
    exact ⟨hdone, events_ended hended hdone⟩

def queuedRecord (n : Nat) (offset : Int) : Record := { partition := ⟨"events", n⟩, offset := offset }

def twoQueued : BatchQueue where
  capacity := 2
  items := [[queuedRecord 0 4, queuedRecord 1 7, queuedRecord 0 5], [queuedRecord 1 8]]

def cutOff : List (Move Connection) :=
  [.look, .receive, .look, .drive (.turn 0), .abort, .drive (.ended .ok), .commit, .commit, .drive .next, .drive .pending,
    .drive (.turn 1), .drive .pending, .rest, .look, .leave]

theorem abort_is_clean_in_callback : twoQueued.closed = false ∧ ∃ s, (ready narrow twoQueued {} threeRecords).run cutOff = s ∧
    s.worker.ended ∧ finished s.marks = [.single (queuedRecord 0 4)] ∧ calls s.marks = [[⟨⟨"events", 0⟩, 5⟩]] ∧
    started s.marks = [queuedRecord 0 4, queuedRecord 0 5, queuedRecord 1 7] ∧
    List.Forall₂ Invocation.Settled (finished s.marks) (calls s.marks) ∧
    (∀ p : Partition, p.acts (events s.marks) <+: (queued s.marks).flatMap (p.course .single)) ∧
    begun s.marks = [[queuedRecord 0 4, queuedRecord 1 7, queuedRecord 0 5]] ∧
    ∀ ms', events (s.run ms').marks = events s.marks ∧ begun (s.run ms').marks = begun s.marks := by
  obtain ⟨hsettled, hcourse, -, hended⟩ := abort_is_clean narrow (q := twoQueued) rfl {} threeRecords cutOff rfl
  have hend : ((ready narrow twoQueued {} threeRecords).run cutOff).worker.ended := by decide +kernel
  exact ⟨rfl, _, rfl, hend, by decide +kernel, by decide +kernel, by decide +kernel, hsettled, hcourse, by decide +kernel,
    (hended hend).2⟩

end Pipeline

end StreamTrigger
