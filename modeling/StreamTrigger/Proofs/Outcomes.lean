import StreamTrigger.Proofs.Aborting

namespace StreamTrigger

open Trace

def Invocation.mode : Invocation → DispatchMode
  | single _ => .single
  | batch _ => .multi

namespace WorkTask

def isFailure : WorkTask → Bool
  | recordFailed .. | batchFailed .. => true
  | _ => false

/-- What is noted where the callback ends well instead. -/
def mended? : WorkTask → Option WorkTask
  | recordFailed .. => none
  | batchFailed n positions _ => some (.batchCompleted n positions.length)
  | n => some n

theorem mended?_eq_self {n : WorkTask} (h : n.isFailure = false) : n.mended? = some n := by
  cases n with
  | recordFailed | batchFailed => cases h
  | _ => rfl

end WorkTask

namespace Invocation

/-- The report that an invocation calls for which ended in another way than well. -/
def report (i : Invocation) (o : Outcome) : WorkTask := i.failed (i.positions.toOption.getD []) (o.failure?.getD "")

/-- What is noted of an invocation that ended well. -/
def completion? (i : Invocation) : Option WorkTask := i.completed (i.positions.toOption.getD [])

@[simp] theorem isFailure_report (i : Invocation) (o : Outcome) : (i.report o).isFailure = true := by cases i <;> rfl

@[simp] theorem mended?_report (i : Invocation) (o : Outcome) : (i.report o).mended? = i.completion? := by
  cases i <;> rfl

theorem isFailure_completion {i : Invocation} {n : WorkTask} (h : i.completion? = some n) : n.isFailure = false := by
  cases i <;> cases h
  rfl

theorem report_spec (i : Invocation) {o : Outcome} (ho : o ≠ .ok) :
    (∃ line intro failure, (i.report o).line? = some line ∧ line.written ∧ o.failure? = some failure ∧
      line.message = intro ++ failure) ∧
      (i.report o).measures = [.count ⟨"kafka_trigger_callback_failures_total", [("mode", i.mode.name)]⟩ 1] := by
  have hfailure : ∃ failure, o.failure? = some failure := by
    cases o with
    | ok => exact absurd rfl ho
    | failed contexts cause | panicked payload => exact ⟨_, rfl⟩
  obtain ⟨failure, hfailure⟩ := hfailure
  cases i with
  | single r => exact ⟨⟨_, "Record callback failed: ", failure, rfl, rfl, hfailure, by rw [hfailure]; rfl⟩, rfl⟩
  | batch rs => exact ⟨⟨_, "Batch callback failed: ", failure, rfl, rfl, hfailure, by rw [hfailure]; rfl⟩, rfl⟩

theorem isSome_completion_iff (i : Invocation) : i.completion?.isSome ↔ i.mode = .multi := by
  cases i <;> simp [completion?, completed, mode]

theorem completion_spec {i : Invocation} {n : WorkTask} (h : i.completion? = some n) :
    (∃ line, n.line? = some line ∧ line.level = .debug) ∧ n.measures = [] := by
  cases i with
  | single r => cases h
  | batch rs =>
      cases h
      exact ⟨⟨_, rfl, rfl⟩, rfl⟩

end Invocation

namespace Event

/-- The event as one sees it who takes every callback to end well. -/
def veiled? : Event → Option Event
  | ended i _ => some (.ended i .ok)
  | noted (.work n) => n.mended?.map (fun n => .noted (.work n))
  | e => some e

def started? : Event → Option Invocation
  | started i => some i
  | _ => none

def report? : Event → Option WorkTask
  | noted (.work n) => if n.isFailure then some n else none
  | _ => none

def failed? : Event → Option (Invocation × Outcome)
  | ended i o => if o = .ok then none else some (i, o)
  | _ => none

def plain : Event → Bool
  | ended _ _ => false
  | noted (.work n) => !n.isFailure
  | _ => true

end Event

def Mark.veiled? : Mark → Option Mark
  | event e => e.veiled?.map .event
  | m => some m

namespace Notice

theorem lines_append (ns ms : List Notice) : lines (ns ++ ms) = lines ns ++ lines ms := by simp [lines]

theorem lines_perm {ns ms : List Notice} (h : ns.Perm ms) : (lines ns).Perm (lines ms) := (h.filterMap _).filter _

end Notice

namespace Trace

def veil (ms : List Mark) : List Mark := ms.filterMap Mark.veiled?

def starts (ms : List Mark) : List Invocation := (events ms).filterMap Event.started?

def reports (ms : List Mark) : List WorkTask := (events ms).filterMap Event.report?

def failures (ms : List Mark) : List (Invocation × Outcome) := (events ms).filterMap Event.failed?

/-- Each failure is reported once, in the order in which they occur. -/
def Reported (ms : List Mark) : Prop := reports ms = (failures ms).map (fun f => f.1.report f.2)

section Append

variable (ms ns : List Mark)

@[simp] theorem veil_append : veil (ms ++ ns) = veil ms ++ veil ns := List.filterMap_append

@[simp] theorem reports_append : reports (ms ++ ns) = reports ms ++ reports ns := by simp [reports]

@[simp] theorem failures_append : failures (ms ++ ns) = failures ms ++ failures ns := by simp [failures]

end Append

theorem veil_map_event (es : List Event) : veil (es.map .event) = (es.filterMap Event.veiled?).map .event := by
  rw [veil, List.filterMap_map, List.map_filterMap]
  rfl

theorem events_veil (ms : List Mark) : events (veil ms) = (events ms).filterMap Event.veiled? := by
  induction ms with
  | nil => rfl
  | cons m ms ih =>
      cases m with
      | event e => cases h : e.veiled? <;> simp_all [veil, events, Mark.veiled?]
      | polled r | queued b | dropped b | begun b => simpa [veil, events, Mark.veiled?] using ih

theorem filterMap_veiled {α : Type} {f : Event → Option α} (hended : ∀ i o, f (.ended i o) = none)
    (hnoted : ∀ n, f (.noted n) = none) (es : List Event) : (es.filterMap Event.veiled?).filterMap f = es.filterMap f := by
  rw [List.filterMap_filterMap]
  congr 1
  funext e
  cases e with
  | ended i o => simp [Event.veiled?, hended]
  | noted n =>
      cases n with
      | work n => cases h : n.mended? <;> simp [Event.veiled?, h, hnoted]
      | _ => rfl
  | _ => rfl

theorem starts_veil (ms : List Mark) : starts (veil ms) = starts ms := by
  rw [starts, events_veil, filterMap_veiled (fun _ _ => rfl) (fun _ => rfl), starts]

theorem calls_veil (ms : List Mark) : calls (veil ms) = calls ms := by
  rw [calls, events_veil, filterMap_veiled (fun _ _ => rfl) (fun _ => rfl), calls]

theorem perm_exchange {α : Type} {x y : α} {as bs cs ds : List α} (h : (as ++ bs).Perm (cs ++ ds)) :
    (x :: as ++ y :: bs).Perm (y :: cs ++ x :: ds) :=
  calc
    (x :: as ++ y :: bs).Perm (x :: y :: (as ++ bs)) := List.perm_middle.cons x
    (x :: y :: (as ++ bs)).Perm (y :: x :: (as ++ bs)) := .swap y x _
    (y :: x :: (as ++ bs)).Perm (y :: x :: (cs ++ ds)) := (h.cons x).cons y
    (y :: x :: (cs ++ ds)).Perm (y :: cs ++ x :: ds) := List.perm_middle.symm.cons y

theorem notices_veil (ms : List Mark) :
    (Event.notices (events ms) ++ ((reports ms).filterMap WorkTask.mended?).map Notice.work).Perm
      (Event.notices (events (veil ms)) ++ (reports ms).map Notice.work) := by
  rw [events_veil, reports]
  induction events ms with
  | nil => exact .refl _
  | cons e es ih =>
      have hcons (n : Notice) (es : List Event) : Event.notices (.noted n :: es) = n :: Event.notices es := rfl
      cases e with
      | noted n =>
          cases n with
          | work n =>
              cases hn : n.isFailure with
              | false =>
                  have hm := WorkTask.mended?_eq_self hn
                  simpa [Event.veiled?, Event.report?, hn, hm, hcons] using ih
              | true =>
                  -- A report takes the place of what is noted of a success, if anything is.
                  cases hm : n.mended? with
                  | none =>
                      simpa [Event.veiled?, Event.report?, hn, hm, hcons] using
                        (ih.cons (.work n)).trans List.perm_middle.symm
                  | some m =>
                      simpa [Event.veiled?, Event.report?, hn, hm, hcons] using perm_exchange ih
          | poll n | listen n | scale n | consumer n | serve n => exact ih.cons _
      | started i | ended i o | handed ps | stored p | committed ps => exact ih

theorem plain_spec {ms : List Mark} (h : ∀ e ∈ events ms, e.plain) : veil ms = ms ∧ Reported ms := by
  have hmark {e : Event} (he : .event e ∈ ms) : e.plain := h e ((mem_events ms).mpr he)
  have hveil : veil ms = ms := by
    refine (List.filterMap_congr (fun m hm => ?_)).trans List.filterMap_some
    cases m with
    | event e =>
        have := hmark hm
        fun_cases Event.plain e <;>
          simp_all [Event.plain, Mark.veiled?, Event.veiled?, WorkTask.mended?_eq_self]
    | polled r | queued b | dropped b | begun b => rfl
  have hreports : reports ms = [] := List.filterMap_eq_nil_iff.mpr (fun e he => by
    have := h e he; fun_cases Event.plain e <;> simp_all [Event.plain, Event.report?])
  have hfailures : failures ms = [] := List.filterMap_eq_nil_iff.mpr (fun e he => by
    have := h e he; fun_cases Event.plain e <;> simp_all [Event.plain, Event.failed?])
  exact ⟨hveil, by rw [Reported, hreports, hfailures]; rfl⟩

theorem ne_ok_of_mem_failures {ms : List Mark} {f : Invocation × Outcome} (h : f ∈ failures ms) : f.2 ≠ .ok := by
  obtain ⟨e, -, he⟩ := List.mem_filterMap.mp h
  cases e with
  | ended i o =>
      obtain ⟨ho, rfl⟩ : o ≠ .ok ∧ (i, o) = f := by simpa [Event.failed?] using he
      exact ho
  | _ => cases he

namespace Reported

variable {ms ns : List Mark}

theorem append (hm : Reported ms) (hn : Reported ns) : Reported (ms ++ ns) := by
  rw [Reported, reports_append, failures_append, hm, hn, List.map_append]

theorem notices (h : Reported ms) :
    (Event.notices (events ms) ++ ((failures ms).filterMap (fun f => f.1.completion?)).map Notice.work).Perm
      (Event.notices (events (veil ms)) ++ (failures ms).map (fun f => .work (f.1.report f.2))) := by
  have hperm := notices_veil ms
  rw [h, List.filterMap_map, List.map_map] at hperm
  simpa [Function.comp_def] using hperm

theorem lines (h : Reported ms) : (Notice.lines (Event.notices (events ms))).Perm
    (Notice.lines (Event.notices (events (veil ms))) ++ (failures ms).filterMap (fun f => (f.1.report f.2).line?)) := by
  -- What failures take away is for debugging, so the log that is written does without it.
  have hcompletions : Notice.lines (((failures ms).filterMap (fun f => f.1.completion?)).map Notice.work) = [] := by
    rw [Notice.lines, List.filter_eq_nil_iff]
    intro line hline
    simp only [List.mem_filterMap, List.mem_map] at hline
    obtain ⟨-, ⟨n, ⟨f, -, hn⟩, rfl⟩, hline⟩ := hline
    obtain ⟨⟨line', hline', hdebug⟩, -⟩ := Invocation.completion_spec hn
    obtain rfl : line' = line := Option.some.inj (hline'.symm.trans hline)
    simp [LogLine.written, hdebug]
  have hreports : Notice.lines ((failures ms).map (fun f => .work (f.1.report f.2))) =
      (failures ms).filterMap (fun f => (f.1.report f.2).line?) := by
    rw [Notice.lines, List.filterMap_map]
    refine List.filter_eq_self.mpr ?_
    intro line hline
    obtain ⟨f, hf, hline⟩ := List.mem_filterMap.mp hline
    obtain ⟨⟨line', -, -, hline', hwritten, -⟩, -⟩ := f.1.report_spec (ne_ok_of_mem_failures hf)
    obtain rfl : line' = line := Option.some.inj (hline'.symm.trans hline)
    exact hwritten
  have hperm := Notice.lines_perm h.notices
  rw [Notice.lines_append, Notice.lines_append, hcompletions, hreports, List.append_nil] at hperm
  exact hperm

theorem measures (h : Reported ms) : ((Event.notices (events ms)).flatMap Notice.measures).Perm
    ((Event.notices (events (veil ms))).flatMap Notice.measures ++
      (failures ms).flatMap (fun f => (f.1.report f.2).measures)) := by
  have hcompletions : (((failures ms).filterMap (fun f => f.1.completion?)).map Notice.work).flatMap
      Notice.measures = [] := by
    rw [List.flatMap_map, List.flatMap_eq_nil_iff]
    intro n hn
    obtain ⟨f, -, hn⟩ := List.mem_filterMap.mp hn
    exact (Invocation.completion_spec hn).2
  have hperm := h.notices.flatMap_right Notice.measures
  rw [List.flatMap_append, hcompletions, List.append_nil, List.flatMap_append, List.flatMap_map] at hperm
  exact hperm

end Reported

end Trace

def Drive.veiled : Drive → Drive
  | ended _ => ended .ok
  | a => a

namespace Dispatch

variable (d : Dispatch)

section End

variable (job : Invocation) (o : Outcome)

theorem endEvents_eq : d.endEvents job o = .ended job o :: .noted (.work (.timed d.mode)) ::
    ((if o = .ok then job.completion?.toList else [job.report o]).map (fun n => .noted (.work n)) ++
      [.handed (job.positions.toOption.getD [])]) := by
  cases o <;> rfl

theorem veil_endEvents : (d.endEvents job o).filterMap Event.veiled? = d.endEvents job .ok := by
  have htimed : (WorkTask.timed d.mode).mended? = some (.timed d.mode) := rfl
  rw [endEvents_eq, endEvents_eq]
  cases hc : job.completion? with
  | none => by_cases ho : o = .ok <;> simp [ho, hc, Event.veiled?, htimed]
  | some n =>
      have hn := WorkTask.mended?_eq_self (Invocation.isFailure_completion hc)
      by_cases ho : o = .ok <;> simp [ho, hc, hn, Event.veiled?, htimed]

theorem reported_endEvents : Reported ((d.endEvents job o).map .event) := by
  have htimed : (WorkTask.timed d.mode).isFailure = false := rfl
  rw [Reported, reports, failures, events_map_event, endEvents_eq]
  by_cases ho : o = .ok
  · cases hc : job.completion? with
    | none => simp [ho, List.filterMap_cons, Event.report?, Event.failed?, htimed]
    | some n =>
        have hn := Invocation.isFailure_completion hc
        simp [ho, hn, List.filterMap_cons, Event.report?, Event.failed?, htimed]
  · simp [ho, List.filterMap_cons, Event.report?, Event.failed?, htimed]

end End

theorem plain_start (i : Nat) (l : Lane) : ∀ e ∈ (d.start i l).2, e.plain := by
  rw [start]
  split
  · simp
  · split <;> simp [Event.plain]

theorem plain_step {a : Drive} (ha : ∀ o, a ≠ .ended o) : ∀ e ∈ (d.step a).2, e.plain := by
  have hidle : ∀ e ∈ ([] : List Event), e.plain := by simp
  unfold step
  split
  · split
    · next l _ =>
        split
        · exact hidle
        · split
          · exact hidle
          · exact d.plain_start _ l
    · exact hidle
  · split <;> exact hidle
  · next o _ _ => exact absurd rfl (ha o)
  · split
    · next l _ =>
        split
        · exact d.plain_start _ l
        · exact hidle
    · exact hidle
  · exact hidle

/-- Where a callback ends, the dispatch goes on in one way, however it ended. -/
theorem step_ended_cases :
    (∀ o, d.step (.ended o) = (d, [])) ∨ ∃ d' job, ∀ o, d.step (.ended o) = (d', d.endEvents job o) := by
  cases hfault : d.fault with
  | some f => exact .inl (fun o => by simp [step, hfault])
  | none =>
      cases hfocus : d.focus with
      | none => exact .inl (fun o => by simp [step, hfault, hfocus])
      | some i =>
          cases hl : d.lanes[i]? with
          | none => exact .inl (fun o => by simp [step, hfault, hfocus, hl])
          | some l =>
              cases hr : l.running with
              | none => exact .inl (fun o => by simp [step, hfault, hfocus, hl, hr])
              | some job =>
                  refine .inr ⟨(d.finish i l job .ok).1, job, fun o => ?_⟩
                  simp only [step, hfault, hfocus, hl, hr]
                  rfl

theorem step_veiled (a : Drive) :
    (d.step a.veiled).1 = (d.step a).1 ∧ (d.step a.veiled).2 = (d.step a).2.filterMap Event.veiled? ∧
      Reported ((d.step a).2.map .event) := by
  by_cases ha : ∃ o, a = .ended o
  · obtain ⟨o, rfl⟩ := ha
    rw [Drive.veiled]
    rcases d.step_ended_cases with hstep | ⟨d', job, hstep⟩ <;> rw [hstep, hstep]
    · exact ⟨rfl, rfl, rfl⟩
    · exact ⟨rfl, (d.veil_endEvents job o).symm, d.reported_endEvents job o⟩
  · have hn (o : Outcome) : a ≠ .ended o := fun he => ha ⟨o, he⟩
    have hveiled : a.veiled = a := by
      cases a with
      | ended o => exact absurd rfl (hn o)
      | turn i | pending | next => rfl
    have hplain : ∀ e ∈ events ((d.step a).2.map .event), e.plain := by simpa using d.plain_step hn
    obtain ⟨hveil, hreported⟩ := plain_spec hplain
    rw [veil_map_event] at hveil
    exact ⟨by rw [hveiled], by rw [hveiled, List.map_injective_iff.mpr (fun _ _ => Mark.event.inj) hveil], hreported⟩

end Dispatch

theorem Event.handedOver_veil (es : List Event) :
    (es.filterMap veiled?).flatMap handedOver = es.flatMap handedOver := by
  induction es with
  | nil => rfl
  | cons e es ih =>
      cases e with
      | noted n =>
          cases n with
          | work n => cases h : n.mended? <;> simpa [veiled?, h, handedOver] using ih
          | _ => simpa [veiled?, handedOver] using ih
      | _ => simpa [veiled?, handedOver] using ih

namespace Worker

variable (w : Worker)

theorem plain_stop (why : List WorkTask) (h : ∀ n ∈ why, n.isFailure = false) : ∀ e ∈ (w.stop why).2, e.plain := by
  intro e he
  obtain ⟨n, hn, rfl⟩ := List.mem_map.mp he
  rcases List.mem_append.mp hn with hn | hn
  · simp [Event.plain, h n hn]
  · obtain rfl := List.mem_singleton.mp hn
    rfl

theorem plain_step {a : WorkerInput} (ha : ∀ x, a ≠ .drive x) : ∀ e ∈ (w.step a).2, e.plain := by
  have he := w.step_effect a
  generalize w.step a = r at he ⊢
  obtain ⟨w', es⟩ := r
  cases he with
  | idle | begins | completes => simp
  | aborts why hwhy =>
      have hwhy : why.isFailure = false := by rcases hwhy with rfl | rfl <;> rfl
      exact w.plain_stop [why] (by simpa using hwhy)
  | ends => exact w.plain_stop [] (by simp)
  | drives d x => exact absurd rfl (ha x)

theorem step_veiled (x : Drive) :
    (w.step (.drive x.veiled)).1 = (w.step (.drive x)).1 ∧
      (w.step (.drive x.veiled)).2 = (w.step (.drive x)).2.filterMap Event.veiled? ∧
      Reported ((w.step (.drive x)).2.map .event) := by
  cases hp : w.phase with
  | dispatching d =>
      obtain ⟨hd, hes, hreported⟩ := d.step_veiled x
      rw [step_drive hp, step_drive hp, hd]
      exact ⟨rfl, hes, hreported⟩
  | waiting | stopped | failed f =>
      have hidle (x : Drive) : w.step (.drive x) = (w, []) := by simp only [step, hp]
      rw [hidle, hidle]
      exact ⟨rfl, rfl, rfl⟩

end Worker

theorem CommitCall.plain_step {β : Type} [Broker β] (c : CommitCall) (t : Tracker) (b : β) :
    ∀ e ∈ (c.step t b).2.events, e.plain := by
  have he := c.step_effect t b
  generalize c.step t b = r at he ⊢
  obtain ⟨c', r⟩ := r
  cases he with
  | rests => simp
  | claims q qs =>
      rcases hc : t.claim q with ⟨t', _ | last⟩ <;> simp [Tracker.advance, hc, Event.plain, WorkTask.isFailure]
  | stores q qs =>
      simp only [CommitMode.store]
      split <;> simp [Event.plain, WorkTask.isFailure]
  | sends q qs =>
      simp only [CommitMode.commitAll]
      split
      · simp
      · split <;> simp [Event.plain, WorkTask.isFailure]

namespace Pipeline

variable {β : Type}

def Move.veiled : Move β → Move β
  | .drive a => .drive a.veiled
  | m => m

variable [Broker β] (s : Pipeline β)

/-- What a move adds to what was seen, and what it adds where callbacks only ever end well. -/
structure Said (m : Move β) (ns : List Mark) : Prop where
  said : ∀ ms, ({ s with marks := ms } : Pipeline β).move m = { s.move m with marks := ms ++ ns }
  veiled : ∀ ms, ({ s with marks := ms } : Pipeline β).move m.veiled = { s.move m with marks := ms ++ veil ns }
  reported : Reported ns

variable {s}

theorem Said.plain {m : Move β} {ns : List Mark} (hm : m.veiled = m) (hns : ∀ e ∈ events ns, e.plain)
    (h : ∀ ms, ({ s with marks := ms } : Pipeline β).move m = { s.move m with marks := ms ++ ns }) : Said s m ns := by
  obtain ⟨hveil, hreported⟩ := plain_spec hns
  exact ⟨h, by rwa [hm, hveil], hreported⟩

theorem said_ask (now : Nat) (heard : Bool) : ∃ ns, Said s (.ask now heard) ns := by
  have hreply (ms : List Mark) (q : Question) : ({ s with marks := ms } : Pipeline β).reply now heard q =
      ({ (s.reply now heard q).1 with marks := ms }, (s.reply now heard q).2) := by cases q <;> rfl
  cases hq : s.loop.asks with
  | none => exact ⟨[], .plain rfl (by simp [events]) (fun ms => by simp [move, ask, hq])⟩
  | some q =>
      refine ⟨s.loop.marks (s.reply now heard q).2, .plain rfl ?_ (fun ms => ?_)⟩
      · simp [Ingestion.events_marks]
      · simp only [move, ask, hq, hreply ms q]
        simp [hear]

theorem said_look : ∃ ns, Said s .look ns := by
  by_cases hidle : s.attending || s.worker.ended
  · exact ⟨[], .plain rfl (by simp [events]) (fun ms => by simp [move, look, hidle])⟩
  · by_cases habort : s.listener.abortRequested
    · refine ⟨(s.worker.step .abort).2.map .event, .plain rfl ?_ (fun ms => ?_)⟩
      · simpa using s.worker.plain_step (by simp)
      · simp [move, look, hidle, habort, input]
    · exact ⟨s.taken.toList.map .begun, .plain rfl (by simp) (fun ms => by simp [move, look, hidle, habort])⟩

theorem said_receive : ∃ ns, Said s .receive ns := by
  by_cases hg : s.attending ∧ s.worker.phase = .waiting
  · obtain ⟨ha, hp⟩ := hg
    rcases s.queue.take_cases with ⟨-, ht⟩ | ⟨b, q, -, -, -, -, ht⟩
    · by_cases hends : s.queue.closed ∨ s.queue.abandoned
      · refine ⟨(s.worker.stop []).2.map .event, .plain rfl ?_ (fun ms => ?_)⟩
        · simpa using s.worker.plain_stop [] (by simp)
        · simp [move, receive, ha, hp, ht, hends, input, Worker.step]
      · exact ⟨[], .plain rfl (by simp [events]) (fun ms => by simp [move, receive, ha, hp, ht, hends])⟩
    · refine ⟨[], .plain rfl (by simp [events]) (fun ms => ?_)⟩
      simp [move, receive, ha, hp, ht, input, Worker.step]
  · have hidle (ms : List Mark) : ({ s with marks := ms } : Pipeline β).receive = { s with marks := ms } := by
      rw [receive]
      split
      · next ha hp => exact absurd ⟨ha, hp⟩ hg
      · rfl
    exact ⟨[], .plain rfl (by simp [events]) (fun ms => by rw [move, move, hidle, hidle s.marks]; simp)⟩

theorem said_drive (a : Drive) : ∃ ns, Said s (.drive a) ns := by
  by_cases hg : s.attending && s.call.done
  · obtain ⟨hw, hes, hreported⟩ := s.worker.step_veiled a
    refine ⟨(s.worker.step (.drive a)).2.map .event, fun ms => ?_, fun ms => ?_, hreported⟩
    · simp [move, drive, hg, input]
    · simp [move, Move.veiled, drive, hg, input, hw, hes, veil_map_event, Event.handedOver_veil]
  · exact ⟨[], fun ms => by simp [move, drive, hg], fun ms => by simp [move, Move.veiled, drive, hg, veil], rfl⟩

theorem said_complete : ∃ ns, Said s .complete ns := by
  by_cases hg : s.attending && s.call.done
  · refine ⟨(s.worker.step .complete).2.map .event, .plain rfl ?_ (fun ms => ?_)⟩
    · simpa using s.worker.plain_step (by simp)
    · simp [move, complete, hg, input]
  · exact ⟨[], .plain rfl (by simp [events]) (fun ms => by simp [move, complete, hg])⟩

theorem said_commit : ∃ ns, Said s .commit ns := by
  refine ⟨(s.call.step s.tracker s.broker).2.events.map .event, .plain rfl ?_ (fun ms => rfl)⟩
  simpa using s.call.plain_step s.tracker s.broker

theorem exists_said (s : Pipeline β) (m : Move β) : ∃ ns, Said s m ns := by
  have hquiet {m : Move β} (hm : m.veiled = m)
      (h : ∀ ms, ({ s with marks := ms } : Pipeline β).move m = { s.move m with marks := ms }) : ∃ ns, Said s m ns :=
    ⟨[], .plain hm (by simp [events]) (by simpa using h)⟩
  cases m with
  | ask now heard => exact said_ask now heard
  | look => exact said_look
  | receive => exact said_receive
  | drive a => exact said_drive a
  | complete => exact said_complete
  | commit => exact said_commit
  | rest => exact hquiet rfl (fun ms => by simp only [move, rest]; split <;> rfl)
  | leave => exact hquiet rfl (fun ms => by simp only [move, leave]; split <;> rfl)
  | requestStop | abort | elsewhere f => exact hquiet rfl (fun ms => rfl)

/-- A run and the run in which callbacks only ever end well, side by side. -/
theorem run_said (s : Pipeline β) (ms : List (Move β)) : ∃ ns, Reported ns ∧
    (∀ seen, ({ s with marks := seen } : Pipeline β).run ms = { s.run ms with marks := seen ++ ns }) ∧
    ∀ seen, ({ s with marks := seen } : Pipeline β).run (ms.map Move.veiled) =
      { s.run ms with marks := seen ++ veil ns } := by
  induction ms generalizing s with
  | nil => exact ⟨[], rfl, by simp [run], by simp [run, veil]⟩
  | cons m ms ih =>
      obtain ⟨ns, hsaid, hveiled, hreported⟩ := exists_said s m
      obtain ⟨ns', hreported', hrun, hrunVeiled⟩ := ih (s.move m)
      refine ⟨ns ++ ns', hreported.append hreported', fun seen => ?_, fun seen => ?_⟩
      · show (({ s with marks := seen } : Pipeline β).move m).run ms = _
        rw [hsaid, hrun, List.append_assoc]
        rfl
      · show (({ s with marks := seen } : Pipeline β).move m.veiled).run (ms.map Move.veiled) = _
        rw [hveiled, hrunVeiled, veil_append, List.append_assoc]
        rfl

/-- How callbacks end is without influence on what is done next. Two runs that differ in nothing else start the same
callbacks, hand over the same positions and come to the same state; and either of them is the run in which every
callback succeeds, with one more line in the log and one more count for each failure. A line for debugging, by which a
batch is noted whose callback succeeded, is all that failures take away; the log does not have it unless it is asked for. -/
theorem outcomes_without_influence (s : Pipeline β) {ms ms' : List (Move β)}
    (h : ms.map Move.veiled = ms'.map Move.veiled) :
    ∃ (t : Pipeline β) (ns ns' calm : List Mark),
      s.run ms = { t with marks := s.marks ++ ns } ∧ s.run ms' = { t with marks := s.marks ++ ns' } ∧
      starts ns = starts ns' ∧ calls ns = calls ns' ∧
      s.run (ms.map Move.veiled) = { t with marks := s.marks ++ calm } ∧
      (∀ seen ∈ [ns, ns'], veil seen = calm ∧
        (Notice.lines (Event.notices (events seen))).Perm
          (Notice.lines (Event.notices (events calm)) ++ (failures seen).filterMap (fun f => (f.1.report f.2).line?)) ∧
        ((Event.notices (events seen)).flatMap Notice.measures).Perm
          ((Event.notices (events calm)).flatMap Notice.measures ++
            (failures seen).flatMap (fun f => (f.1.report f.2).measures)) ∧
        (Event.notices (events seen) ++ ((failures seen).filterMap (fun f => f.1.completion?)).map Notice.work).Perm
          (Event.notices (events calm) ++ (failures seen).map (fun f => .work (f.1.report f.2)))) ∧
      (∀ (i : Invocation) (o : Outcome), o ≠ .ok →
        (∃ line intro failure, (i.report o).line? = some line ∧ line.written ∧ o.failure? = some failure ∧
          line.message = intro ++ failure) ∧
        (i.report o).measures = [.count ⟨"kafka_trigger_callback_failures_total", [("mode", i.mode.name)]⟩ 1]) ∧
      ∀ i : Invocation, (i.completion?.isSome ↔ i.mode = .multi) ∧
        ∀ n, i.completion? = some n → (∃ line, n.line? = some line ∧ line.level = .debug) ∧ n.measures = [] := by
  obtain ⟨ns, hreported, hrun, hveiled⟩ := s.run_said ms
  obtain ⟨ns', hreported', hrun', hveiled'⟩ := s.run_said ms'
  have hboth : { s.run ms with marks := s.marks ++ veil ns } = { s.run ms' with marks := s.marks ++ veil ns' } := by
    rw [← hveiled, ← hveiled', h]
  have hveil : veil ns = veil ns' := List.append_cancel_left (congrArg marks hboth)
  have hstate : s.run ms' = { s.run ms with marks := s.marks ++ ns' } :=
    (hrun' s.marks).trans (congrArg (fun t => { t with marks := s.marks ++ ns' }) hboth.symm)
  refine ⟨s.run ms, ns, ns', veil ns, hrun s.marks, hstate, ?_, ?_, hveiled s.marks, ?_, fun i o ho => i.report_spec ho,
    fun i => ⟨i.isSome_completion_iff, fun n => Invocation.completion_spec⟩⟩
  · rw [← starts_veil ns, hveil, starts_veil]
  · rw [← calls_veil ns, hveil, calls_veil]
  · intro seen hseen
    rcases List.mem_pair.mp hseen with rfl | rfl
    · exact ⟨rfl, hreported.lines, hreported.measures, hreported.notices⟩
    · rw [hveil]
      exact ⟨rfl, hreported'.lines, hreported'.measures, hreported'.notices⟩

def threeEnds (first second third : Outcome) : List (Move Connection) :=
  [.look, .receive, .look, .drive (.turn 0), .drive (.ended first), .commit, .commit, .drive .next,
    .drive (.ended second), .commit, .commit, .drive (.turn 1), .drive .pending, .rest, .look, .drive (.turn 1),
    .drive (.ended third), .commit, .commit, .complete]

theorem events_of_run {s t : Pipeline β} {ms : List (Move β)} {ns : List Mark} (hs : events s.marks = [])
    (h : s.run ms = { t with marks := s.marks ++ ns }) : events ns = events (s.run ms).marks := by
  rw [h, events_append, hs, List.nil_append]

theorem outcomes_without_influence_panic :
    let s := ready narrow twoQueued {} threeRecords
    let failing := threeEnds (.panicked (.made "boom")) .ok (.failed ["outer"] "inner")
    let calm := threeEnds .ok .ok .ok
    failing.map Move.veiled = calm.map Move.veiled ∧ ∃ (t : Pipeline Connection) (ns ns' : List Mark),
      s.run failing = { t with marks := s.marks ++ ns } ∧ s.run calm = { t with marks := s.marks ++ ns' } ∧
      t.worker.batches = 1 ∧
      starts ns = starts ns' ∧ starts ns' = [queuedRecord 0 4, queuedRecord 0 5, queuedRecord 1 7].map .single ∧
      calls ns = calls ns' ∧ calls ns' = [[⟨⟨"events", 0⟩, 5⟩], [⟨⟨"events", 0⟩, 6⟩], [⟨⟨"events", 1⟩, 8⟩]] ∧
      veil ns = veil ns' ∧ failures ns' = [] ∧
      failures ns = [(.single (queuedRecord 0 4), .panicked (.made "boom")),
        (.single (queuedRecord 1 7), .failed ["outer"] "inner")] := by
  intro s failing calm
  have hsame : failing.map Move.veiled = calm.map Move.veiled := rfl
  obtain ⟨t, ns, ns', quiet, hrun, hrun', hstarts, hcalls, -, hseen, -⟩ := outcomes_without_influence s hsame
  have hns := events_of_run (by decide) hrun
  have hns' := events_of_run (by decide) hrun'
  have hworker : t.worker.batches = (s.run failing).worker.batches := (congrArg (fun t => t.worker.batches) hrun).symm
  refine ⟨hsame, t, ns, ns', hrun, hrun', ?_, hstarts, ?_, hcalls, ?_, ?_, ?_, ?_⟩
  · rw [hworker]; decide +kernel
  · rw [starts, hns']; decide +kernel
  · rw [calls, hns']; decide +kernel
  · rw [(hseen ns (by simp)).1, (hseen ns' (by simp)).1]
  · rw [failures, hns']; decide +kernel
  · rw [failures, hns]; decide +kernel

end Pipeline

end StreamTrigger
