import StreamTrigger.Proofs.Aborting

namespace StreamTrigger

open Trace

/-- The `outcome` is that of the callback that is resumed, if it is over by then. -/
structure Chance where
  lane : Nat
  rests : Bool := false
  outcome : Option Outcome := none

namespace Pipeline

variable {β : Type}

/-- The next move of the worker. Commits come first, and a dispatch that is done is completed. -/
def next (s : Pipeline β) (c : Chance) : Move β :=
  if s.call.done = false then .commit
  else if s.worker.ended then .leave
  else if s.attending = false then .look
  else
    match s.worker.phase with
    | .dispatching d =>
        if d.done then .complete
        else
          match d.focus with
          | none => if c.rests then .rest else .drive (.turn c.lane)
          | some _ => .drive (if d.running?.isNone then .next else (c.outcome.map Drive.ended).getD .pending)
    | _ => .receive

inductive Happening (β : Type) where
  | offer (b : Batch)
  | abandon
  | elsewhere (f : β → β)
  | work (c : Chance)

/-- Only a batch that is accepted was enqueued; without a sender there are no offers. -/
def offer (s : Pipeline β) (b : Batch) : Pipeline β :=
  match s.queue.abandoned, s.queue.offer b with
  | false, (q, .accepted) => { s with queue := q, marks := s.marks ++ (b.map .polled ++ [.queued b]) }
  | _, _ => s

variable [Broker β]

def happen (s : Pipeline β) : Happening β → Pipeline β
  | .offer b => s.offer b
  | .abandon => { s with queue := s.queue.abandon }
  | .elsewhere f => s.move (.elsewhere f)
  | .work c => s.move (s.next c)

def after (s : Pipeline β) (σ : Nat → Happening β) : Nat → Pipeline β
  | 0 => s
  | n + 1 => (s.after σ n).happen (σ n)

inductive Worked (s s' : Pipeline β) : Prop
  | commits (hcall : s.call.done = false) (hs : s' = s.commit)
  | leaves (hcall : s.call.done) (hended : s.worker.ended) (hs : s' = { s with queue := s.queue.discard })
  | looks (hcall : s.call.done) (hgoing : s.worker.ended = false) (hidle : s.attending = false)
      (hs : s' = { s with attending := true, taken := none, marks := s.marks ++ s.taken.toList.map .begun })
  | takes (hcall : s.call.done) (ha : s.attending) (hp : s.worker.phase = .waiting) (b : Batch) (q : BatchQueue)
      (hitems : s.queue.items = b :: q.items) (hclosed : q.closed = s.queue.closed)
      (habandoned : q.abandoned = s.queue.abandoned)
      (hs : s' = { s with
        queue := q, taken := some b, attending := false
        worker := { s.worker with phase := .dispatching (.begin s.worker.mode b) } })
  | waits (hcall : s.call.done) (ha : s.attending) (hp : s.worker.phase = .waiting) (hitems : s.queue.items = [])
      (hheld : s.queue.abandoned = false) (hs : s' = { s with attending := false })
  | finishes (hcall : s.call.done) (ha : s.attending) (hp : s.worker.phase = .waiting) (hitems : s.queue.items = [])
      (hends : s.queue.closed ∨ s.queue.abandoned)
      (hs : s' = { s with worker := (s.worker.stop []).1, marks := s.marks ++ (s.worker.stop []).2.map .event })
  | completes (hcall : s.call.done) (ha : s.attending) (d : Dispatch) (hp : s.worker.phase = .dispatching d) (hd : d.done)
      (hs : s' = { s with
        attending := false, worker := { s.worker with phase := .waiting, batches := s.worker.batches + 1 } })
  | rests (hcall : s.call.done) (ha : s.attending) (d : Dispatch) (hp : s.worker.phase = .dispatching d)
      (hd : d.done = false) (hs : s' = { s with attending := false })
  | drives (hcall : s.call.done) (ha : s.attending) (d : Dispatch) (hp : s.worker.phase = .dispatching d)
      (hd : d.done = false) (a : Drive)
      (hs : s' = { s with
        worker := { s.worker with phase := Worker.reached (d.step a).1 }
        marks := s.marks ++ (d.step a).2.map .event
        call := { s.call with unchecked := (d.step a).2.flatMap Event.handedOver } })

omit [Broker β] in
theorem drive_eq {s : Pipeline β} (ha : s.attending) (hcall : s.call.done) {d : Dispatch}
    (hp : s.worker.phase = .dispatching d) (a : Drive) :
    s.drive a = { s with
      worker := { s.worker with phase := Worker.reached (d.step a).1 }
      marks := s.marks ++ (d.step a).2.map .event
      call := { s.call with unchecked := (d.step a).2.flatMap Event.handedOver } } := by
  simp [drive, ha, hcall, input, Worker.step_drive hp]

section Worked

variable {s : Pipeline β} (hcall : s.call.done) (ha : s.attending)

include hcall ha

theorem receive_worked (hp : s.worker.phase = .waiting) : Worked s s.receive := by
  rcases s.queue.take_cases with ⟨hitems, ht⟩ | ⟨b, q, hitems, -, hclosed, habandoned, ht⟩
  · by_cases hends : s.queue.closed ∨ s.queue.abandoned
    · exact .finishes hcall ha hp hitems hends (by simp [receive, ha, hp, ht, hends, input, Worker.step])
    · exact .waits hcall ha hp hitems (by simp_all) (by simp [receive, ha, hp, ht, hends])
  · exact .takes hcall ha hp b q hitems hclosed habandoned (by simp [receive, ha, hp, ht, input, Worker.step])

theorem dispatching_worked {d : Dispatch} (hp : s.worker.phase = .dispatching d) (hgoing : s.worker.ended = false) (c : Chance) :
    Worked s (s.move (s.next c)) := by
  cases hd : d.done with
  | true =>
      have hnext : s.next c = .complete := by simp [next, hcall, hgoing, ha, hp, hd]
      rw [hnext]
      exact .completes hcall ha d hp hd (by simp [move, complete, ha, hcall, input, Worker.step, hp, hd])
  | false =>
      have hdrive (a : Drive) : Worked s (s.move (.drive a)) := .drives hcall ha d hp hd a (drive_eq ha hcall hp a)
      cases hf : d.focus with
      | none =>
          cases hr : c.rests with
          | true =>
              have hnext : s.next c = .rest := by simp [next, hcall, hgoing, ha, hp, hd, hf, hr]
              rw [hnext]
              exact .rests hcall ha d hp hd (by simp [move, rest, hcall])
          | false =>
              have hnext : s.next c = .drive (.turn c.lane) := by simp [next, hcall, hgoing, ha, hp, hd, hf, hr]
              exact hnext ▸ hdrive _
      | some i =>
          have hnext : s.next c = .drive (if d.running?.isNone then .next else (c.outcome.map Drive.ended).getD .pending) := by
            simp [next, hcall, hgoing, ha, hp, hd, hf]
          exact hnext ▸ hdrive _

end Worked

theorem work_worked {s : Pipeline β} (hcalm : s.listener.abortRequested = false) (c : Chance) :
    Worked s (s.move (s.next c)) := by
  by_cases hcall : s.call.done
  · by_cases hended : s.worker.ended
    · have hnext : s.next c = .leave := by simp [next, hcall, hended]
      rw [hnext]
      exact .leaves hcall hended (by simp [move, leave, hended])
    · have hgoing : s.worker.ended = false := by simpa using hended
      by_cases ha : s.attending
      · cases hp : s.worker.phase with
        | waiting =>
            have hnext : s.next c = .receive := by simp [next, hcall, hgoing, ha, hp]
            exact hnext ▸ receive_worked hcall ha hp
        | dispatching d => exact dispatching_worked hcall ha hp hgoing c
        | stopped | failed f => simp [Worker.ended, hp] at hgoing
      · have hidle : s.attending = false := by simpa using ha
        have hnext : s.next c = .look := by simp [next, hcall, hgoing, hidle]
        rw [hnext]
        exact .looks hcall hgoing hidle (by simp [move, look, hidle, hgoing, hcalm])
  · have hcall : s.call.done = false := by simpa using hcall
    have hnext : s.next c = .commit := by simp [next, hcall]
    rw [hnext]
    exact .commits hcall rfl

/-- What is kept while nobody aborts the worker. A worker that has ended has left nothing behind. -/
structure Draining (s : Pipeline β) : Prop where
  clean : Clean s
  unasked : s.loop.load = []
  calm : s.listener.abortRequested = false
  lossless : queued s.marks = begun s.marks ++ s.taken.toList ++ s.queue.items
  fits : ∀ b ∈ s.queue.items, ∀ r ∈ b, Word.Fits (r.offset + 1)
  able : ∀ d, s.worker.phase = .dispatching d → d.Able
  opened : s.worker.ended = false → s.queue.closed = false
  atEnd : s.worker.ended → s.worker.phase = .stopped ∧ s.call.done ∧ s.taken = none ∧ s.queue.abandoned ∧
    s.queue.items = [] ∧ ∀ p : Partition, p.acts (events s.marks) = (begun s.marks).flatMap (p.course s.worker.mode)

namespace Draining

variable {s s' : Pipeline β}

omit [Broker β] in
theorem idle (h : Draining s) (hahead : s.ahead = []) (p : Partition) :
    p.acts (events s.marks) = (begun s.marks).flatMap (p.course s.worker.mode) := by
  cases hended : s.worker.ended with
  | true => exact (h.atEnd hended).2.2.2.2.2 p
  | false => simpa [hahead] using h.clean.course.ahead hended p

omit [Broker β] in
theorem going (h : Draining s) {d : Dispatch} (hp : s.worker.phase = .dispatching d) : s.queue.closed = false :=
  h.opened (by simp [Worker.ended, hp])

theorem worked (h : Draining s) (c : Chance) : Draining (s.move (s.next c)) := by
  have hclean : Clean (s.move (s.next c)) := h.clean.move _
  have hw := work_worked h.calm c
  generalize s.move (s.next c) = s' at hclean hw
  cases hw with
  | commits hcall hs =>
      subst hs
      exact ⟨hclean, h.unasked, h.calm, by simpa [commit] using h.lossless, h.fits, h.able, h.opened,
        fun hended => absurd (h.atEnd hended).2.1 (by simp [hcall])⟩
  | leaves hcall hended hs =>
      subst hs
      obtain ⟨hp, -, ht, habandoned, hitems, hacts⟩ := h.atEnd hended
      refine ⟨hclean, h.unasked, h.calm, ?_, by simp [BatchQueue.discard], h.able, by simp [hended],
        fun _ => ⟨hp, hcall, ht, habandoned, rfl, hacts⟩⟩
      simpa [BatchQueue.discard, hitems] using h.lossless
  | looks hcall hgoing hidle hs =>
      subst hs
      exact ⟨hclean, h.unasked, h.calm, by simpa using h.lossless, h.fits, h.able, h.opened, by simp [hgoing]⟩
  | takes hcall ha hp b q hitems hclosed habandoned hs =>
      subst hs
      have hfits := h.fits
      rw [hitems] at hfits
      refine ⟨hclean, h.unasked, h.calm, ?_, fun b' hb' => hfits b' (.tail _ hb'), fun d hd => ?_,
        fun _ => hclosed.trans (h.opened (by simp [Worker.ended, hp])), by simp [Worker.ended]⟩
      · simpa [h.clean.sound.attentive ha, hitems] using h.lossless
      · obtain rfl : .begin s.worker.mode b = d := by simpa using hd
        exact Dispatch.able_begin (hfits b (.head _))
  | waits hcall ha hp hitems hheld hs =>
      subst hs
      exact ⟨hclean, h.unasked, h.calm, h.lossless, h.fits, h.able, h.opened, h.atEnd⟩
  | finishes hcall ha hp hitems hends hs =>
      subst hs
      have hopened : s.queue.closed = false := h.opened (by simp [Worker.ended, hp])
      have hsilent := s.worker.silent_stop []
      refine ⟨hclean, h.unasked, h.calm, by simpa using h.lossless, h.fits, by simp [Worker.stop],
        by simp [Worker.stop, Worker.ended],
        fun _ => ⟨rfl, hcall, h.clean.sound.attentive ha, hends.resolve_left (by simp [hopened]), hitems, fun p => ?_⟩⟩
      simp only [events_append, events_map_event, p.acts_append, p.acts_silent hsilent, begun_append, begun_map_event,
        List.append_nil]
      exact h.idle (ahead_waiting hp) p
  | completes hcall ha d hp hd hs =>
      subst hs
      exact ⟨hclean, h.unasked, h.calm, h.lossless, h.fits, by simp, fun _ => h.going hp, by simp [Worker.ended]⟩
  | rests hcall ha d hp hd hs =>
      subst hs
      exact ⟨hclean, h.unasked, h.calm, h.lossless, h.fits, h.able, h.opened, h.atEnd⟩
  | drives hcall ha d hp hd a hs =>
      subst hs
      have hable : Dispatch.Able (d.step a).1 := (h.able d hp).effect (d.step_effect a)
      have hreached : Worker.reached (d.step a).1 = .dispatching (d.step a).1 := by simp [Worker.reached, hable.faultless]
      refine ⟨hclean, h.unasked, h.calm, by simpa using h.lossless, h.fits, fun d' hd' => ?_, fun _ => h.going hp, by
        simp [hreached, Worker.ended]⟩
      obtain rfl : (d.step a).1 = d' := by simpa [hreached] using hd'
      exact hable

omit [Broker β] in
theorem accepted (h : Draining s) {b : Batch} (hb : ∀ r ∈ b, Word.Fits (r.offset + 1)) (hopen : s.queue.closed = false)
    (hheld : s.queue.abandoned = false) {q : BatchQueue} (hitems : q.items = s.queue.items ++ [b])
    (hclosed : q.closed = s.queue.closed) :
    Draining { s with queue := q, marks := s.marks ++ (b.map .polled ++ [.queued b]) } := by
  obtain ⟨hpolled, hqueued, hsent, hbegun, hdropped, hevents⟩ := marks_content [b]
  simp only [List.flatMap_cons, List.flatMap_nil, List.append_nil, List.flatten_cons, List.flatten_nil]
    at hpolled hqueued hsent hbegun hdropped hevents
  have hgoing : s.worker.ended = false := by
    by_contra hended
    simp [(h.atEnd (by simpa using hended)).2.2.2.1] at hheld
  have hstep : Step s { s with queue := q, marks := s.marks ++ (b.map .polled ++ [.queued b]) } :=
    .aside _ rfl rfl rfl hbegun (by simp [hevents]) (fun hd => ⟨hd, hevents⟩) .inl
  have hsound := h.clean.sound
  have horderly : Orderly { s with queue := q, marks := s.marks ++ (b.map .polled ++ [.queued b]) } := by
    refine ⟨?loaded, ⟨[], ?inLine, by simp⟩, ?gap, ?broken, ?closed⟩
    case loaded =>
      have hloaded := hsound.orderly.loaded
      simp only [h.unasked, List.append_nil] at hloaded
      simp only [polled_append, sent_append, hpolled, hsent, hloaded, h.unasked]
      simp
    case inLine => simp only [queued_append, begun_append, hqueued, hbegun, h.lossless, hitems]; simp
    case gap =>
      obtain ⟨tail, ht, hd⟩ := hsound.orderly.gap
      refine ⟨tail ++ [b], ?_, ?_⟩
      · simp only [sent_append, begun_append, hsent, hbegun, ht]; simp
      · simp only [dropped_append, hdropped, List.append_nil]
        exact hd.trans (List.sublist_append_left _ _)
    case broken => simpa only [dropped_append, hdropped, List.append_nil] using hsound.orderly.broken
    case closed => simp [hclosed, hopen]
  refine ⟨⟨⟨horderly, hsound.attentive, ?_, ?_⟩, h.clean.step_course hstep, fun _ => h.clean.step_underway hstep,
    h.clean.step_settled hstep, h.clean.step_busy hstep⟩, h.unasked, h.calm, ?_, ?_, h.able, fun _ => hclosed.trans hopen,
    by simp [hgoing]⟩
  · exact hsound.accounted.append hbegun (by simp [started, hevents]) (by simp [finished, hevents])
  · exact hsound.faithful.append (by simp)
  · simp only [queued_append, begun_append, hqueued, hbegun, h.lossless, hitems]; simp
  · simp only [hitems, List.mem_append, List.mem_singleton]
    rintro b' (hb' | rfl)
    · exact h.fits b' hb'
    · exact hb

omit [Broker β] in
theorem offer (h : Draining s) {b : Batch} (hb : ∀ r ∈ b, Word.Fits (r.offset + 1)) : Draining (s.offer b) := by
  rw [Pipeline.offer]
  rcases s.queue.offer_cases b with ⟨hopen, hfits, ho⟩ | ho | ⟨-, ho⟩ <;> rw [ho] <;> cases hheld : s.queue.abandoned
  · exact h.accepted hb hopen hheld rfl rfl
  all_goals exact h

omit [Broker β] in
theorem abandoned (h : Draining s) : Draining { s with queue := s.queue.abandon } := by
  obtain ⟨⟨horderly, hattentive, haccounted, hfaithful⟩, hcourse, hunderway, hsettled, hbusy⟩ := h.clean
  have horderly' : Orderly { s with queue := s.queue.abandon } :=
    ⟨horderly.loaded, horderly.inLine, horderly.gap, horderly.broken, horderly.closed⟩
  refine ⟨⟨⟨horderly', hattentive, haccounted, hfaithful⟩, hcourse, hunderway, hsettled, hbusy⟩, h.unasked, h.calm, h.lossless,
    h.fits, h.able, h.opened, fun hended => ?_⟩
  obtain ⟨hp, hcall, ht, -, hitems, hacts⟩ := h.atEnd hended
  exact ⟨hp, hcall, ht, rfl, hitems, hacts⟩

theorem happen (h : Draining s) {x : Happening β} (hx : ∀ b, x = .offer b → ∀ r ∈ b, Word.Fits (r.offset + 1)) :
    Draining (s.happen x) := by
  cases x with
  | offer b => exact h.offer (hx b rfl)
  | work c => exact h.worked c
  | elsewhere f =>
      exact ⟨h.clean.move (.elsewhere f), h.unasked, h.calm, h.lossless, h.fits, h.able, h.opened, h.atEnd⟩
  | abandon => exact h.abandoned

theorem after (h : Draining s) {σ : Nat → Happening β} (hσ : ∀ n b, σ n = .offer b → ∀ r ∈ b, Word.Fits (r.offset + 1))
    (n : Nat) : Draining (s.after σ n) := by
  induction n with
  | zero => exact h
  | succ n ih => exact ih.happen (hσ n)

end Draining

end Pipeline

end StreamTrigger
