import StreamTrigger.Proofs.Reading

namespace StreamTrigger

open Trace Connection

theorem span_of_prefix {b : Connection} {n : Nat} {rs ss : List Record} (h : rs <+: ss)
    (hs : ss.map Record.offset = b.span n ss.length) : rs.map Record.offset = b.span n rs.length := by
  have ht : rs = ss.take rs.length := List.prefix_iff_eq_take.mp h
  have hmin : min rs.length ss.length = rs.length := Nat.min_eq_left h.length_le
  calc rs.map Record.offset = (ss.take rs.length).map Record.offset := by rw [← ht]
    _ = (ss.map Record.offset).take rs.length := List.map_take ..
    _ = b.span n rs.length := by rw [hs, span, span, ← List.map_take, List.take_range, hmin]

namespace Pipeline

variable {b : Connection} {s s' : Pipeline Connection}

section Prefixes

variable {β : Type} {s : Pipeline β}

theorem Sound.begun_prefix (h : Sound s) : (begun s.marks).flatten <+: polled s.marks := by
  obtain ⟨tail, ht, -⟩ := h.orderly.gap
  rw [h.orderly.loaded, ht, List.flatten_append, List.append_assoc]
  exact List.prefix_append ..

theorem Sound.completed_prefix (h : Sound s) (p : Partition) : p.part (completed s.marks) <+: p.part (polled s.marks) := by
  obtain ⟨us, ue, hb, -⟩ := h.accounted
  have hp : p.part (completed s.marks) <+: p.part (begun s.marks).flatten := ⟨_, hb.completed p⟩
  exact hp.trans (Partition.part_prefix p h.begun_prefix)

theorem Sound.started_prefix (h : Sound s) (p : Partition) : p.part (started s.marks) <+: p.part (polled s.marks) := by
  obtain ⟨us, ue, hb, -⟩ := h.accounted
  have hp : p.part (started s.marks) <+: p.part (begun s.marks).flatten := ⟨_, hb.started p⟩
  exact hp.trans (Partition.part_prefix p h.begun_prefix)

theorem Sound.dispatching (h : Sound s) {d : Dispatch} (hp : s.worker.phase = .dispatching d) (ht : s.taken = none) :
    Balance s.marks d.unstarted d.unended := by
  have hacc := h.accounted
  rw [hp, ht] at hacc
  exact hacc.dispatching.1

theorem Sound.unended_polled (h : Sound s) {d : Dispatch} (hp : s.worker.phase = .dispatching d) (ht : s.taken = none) :
    ∀ r ∈ d.unended, r ∈ polled s.marks := by
  intro r hr
  have hb := (h.dispatching hp ht).completed r.partition
  have hm : r ∈ r.partition.part (begun s.marks).flatten := by
    rw [← hb]
    exact List.mem_append_right _ (Partition.mem_part.mpr ⟨hr, rfl⟩)
  exact h.begun_prefix.subset (Partition.mem_part.mp hm).1

end Prefixes

structure Healthy (s : Pipeline Connection) : Prop where
  unbroken : ∀ f, s.worker.phase ≠ .failed f
  faultless : ∀ d, s.worker.phase = .dispatching d → d.fault = none
  unaborted : s.listener.abortRequested = false
  idle : (∀ d, s.worker.phase ≠ .dispatching d) → s.call.done

structure Exact (b : Connection) (s : Pipeline Connection) : Prop where
  sound : Sound s
  healthy : Healthy s
  reading : Reading b s
  settling : Settling b s

theorem Exact.done_le (h : Exact b s) (n : Nat) : (b.doneOf s.marks n).length ≤ (b.polledOf s.marks n).length :=
  (h.sound.completed_prefix _).length_le

section Finish

variable {job : Invocation} {ps : List Position}

theorem doneOf_finish (hm : completed s'.marks = completed s.marks ++ job.records) (n : Nat) :
    b.doneOf s'.marks n = b.doneOf s.marks n ++ (b.cluster.partition n).part job.records := by
  simp [doneOf, hm]

theorem finish_due (hr : Reading b s) (hps : job.positions = .ok ps) (hjob : ∀ r ∈ job.records, r ∈ polled s.marks)
    (hpre : ∀ n, b.doneOf s'.marks n <+: b.polledOf s.marks n)
    (hm : completed s'.marks = completed s.marks ++ job.records) {q : Position} (hq : q ∈ ps) :
    ∃ n : Nat, q.partition = b.cluster.partition n ∧ (b.doneOf s.marks n).length < (b.doneOf s'.marks n).length ∧
      q.offset = b.first n + (b.doneOf s'.marks n).length := by
  obtain ⟨o, ⟨⟨r, hrj, hrp, hro⟩, hmax⟩, ho⟩ := Batch.nextPositions_isNext hps hq
  obtain ⟨n, -, hn⟩ := (hr.known r (hjob r hrj)).2
  have hsplit := doneOf_finish (b := b) hm n
  have hspan := span_of_prefix (hpre n) (hr.inOrder n)
  have hrn : r ∈ (b.cluster.partition n).part job.records := Partition.mem_part.mpr ⟨hrj, hn⟩
  have hlt : (b.doneOf s.marks n).length < (b.doneOf s'.marks n).length := by
    have := List.length_pos_of_mem hrn
    rw [hsplit, List.length_append]
    omega
  have hupper : o < b.first n + (b.doneOf s'.marks n).length := by
    have hmem : o ∈ b.span n (b.doneOf s'.marks n).length := by
      rw [← hspan, hsplit, ← hro]
      exact List.mem_map_of_mem (List.mem_append_right _ hrn)
    exact (mem_span.mp hmem).2
  have hlower : b.first n + (b.doneOf s'.marks n).length - 1 ≤ o := by
    have hmem : b.first n + (b.doneOf s'.marks n).length - 1 ∈ b.span n (b.doneOf s'.marks n).length :=
      mem_span.mpr ⟨by omega, by omega⟩
    rw [← hspan] at hmem
    obtain ⟨r', hr', ho'⟩ := List.mem_map.mp hmem
    rw [hsplit] at hr'
    rcases List.mem_append.mp hr' with hr' | hr'
    · -- what was done before lies below
      have hold : r'.offset ∈ b.span n (b.doneOf s.marks n).length := by
        have hp : b.doneOf s.marks n <+: b.doneOf s'.marks n := hsplit ▸ List.prefix_append _ _
        rw [← span_of_prefix (hp.trans (hpre n)) (hr.inOrder n)]
        exact List.mem_map_of_mem hr'
      have := (mem_span.mp hold).2
      omega
    · obtain ⟨hj, hp⟩ := Partition.mem_part.mp hr'
      exact ho' ▸ hmax r' hj (hp.trans (hn.symm.trans hrp))
  exact ⟨n, hrp ▸ hn, hlt, by omega⟩

theorem Settling.finish (h : Settling b s) (hr : Reading b s) (hidle : s.call.done) (hps : job.positions = .ok ps)
    (hjob : ∀ r ∈ job.records, r ∈ polled s.marks) (hpre : ∀ n, b.doneOf s'.marks n <+: b.polledOf s.marks n)
    (hm : completed s'.marks = completed s.marks ++ job.records) (hb : s'.broker = s.broker)
    (ht : s'.tracker = s.tracker) (hc : s'.call = { s.call with unchecked := ps }) : Settling b s' := by
  have hempty := CommitCall.done_iff.mp hidle
  have hnone : s.call.pending = [] := by simp [CommitCall.pending, hempty]
  have hpending : s'.call.pending = ps := by simp [CommitCall.pending, hc, hempty]
  have hunchecked : s'.call.unchecked = ps := by rw [hc]
  have hdue {q : Position} (hq : q ∈ ps) := finish_due hr hps hjob hpre hm hq
  refine ⟨?due, ?settled, ?mark, ?unclaimed, ?distinct, ?stored⟩
  case due =>
    intro q hq
    obtain ⟨n, hn, hlt, ho⟩ := hdue (hpending ▸ hq)
    exact ⟨n, hn, by omega, ho⟩
  case settled =>
    intro n hn
    have hpart : (b.cluster.partition n).part job.records = [] := by
      apply Partition.part_eq_nil
      intro r hrj he
      obtain ⟨q, hq, hqp⟩ := List.mem_map.mp (Batch.nextPositions_total hps hrj)
      exact hn q (hpending.symm ▸ hq) (hqp.trans he)
    have hdone : b.doneOf s'.marks n = b.doneOf s.marks n := by rw [doneOf_finish hm, hpart, List.append_nil]
    rw [hb, owed, hdone]
    exact h.settled n (by simp [hnone])
  case mark =>
    intro n
    have hmark := h.mark n
    rw [ht, doneOf_finish hm, List.length_append]
    omega
  case unclaimed =>
    intro q hq
    obtain ⟨n, hn, hlt, ho⟩ := hdue (hunchecked ▸ hq)
    have hmark := h.mark n
    rw [ht, hn, ho]
    omega
  case distinct =>
    rw [hunchecked]
    exact Batch.nextPositions_nodup hps
  case stored =>
    intro hi
    rw [hb]
    exact h.stored (by simpa [hc] using hi)

end Finish

theorem positions_ok (h : Reading b s) {job : Invocation} (hjob : ∀ r ∈ job.records, r ∈ polled s.marks) :
    ∃ ps, job.positions = .ok ps :=
  Batch.nextPositions_ok (fun r hr => (h.known r (hjob r hr)).1)

section Drive

variable {a : Drive}

theorem drive_idle (hd : s.call.done) (hp : ∀ d, s.worker.phase ≠ .dispatching d) : s.drive a = s := by
  have hstep : s.worker.step (.drive a) = (s.worker, []) := by
    have he := s.worker.step_effect (.drive a)
    generalize s.worker.step (.drive a) = r at he ⊢
    obtain ⟨w, es⟩ := r
    cases he with
    | idle => rfl
    | drives d _ hd => exact absurd hd (hp d)
  have hu : s.call.unchecked = [] := (CommitCall.done_iff.mp hd).1
  rw [Pipeline.drive]
  split
  · simp [Pipeline.input, hstep, ← hu]
  · rfl

theorem drive_dispatching {d : Dispatch} (hg : s.attending && s.call.done) (hp : s.worker.phase = .dispatching d) :
    s.drive a = { s with
      worker := { s.worker with phase := Worker.reached (d.step a).1 }
      marks := s.marks ++ (d.step a).2.map .event
      call := { s.call with unchecked := (d.step a).2.flatMap Event.handedOver } } := by
  simp only [Pipeline.drive, hg, if_true, Pipeline.input, Worker.step_drive hp]

theorem Exact.effect (h : Exact b s) {d d' : Dispatch} {es : List Event} (hp : s.worker.phase = .dispatching d)
    (ht : s.taken = none) (hidle : s.call.done) (he : Dispatch.Effect d d' es) (hs : Sound s')
    (hmarks : s'.marks = s.marks ++ es.map .event) (hbroker : s'.broker = s.broker) (htracker : s'.tracker = s.tracker)
    (hcall : s'.call = { s.call with unchecked := es.flatMap Event.handedOver }) : d'.fault = none ∧ Settling b s' := by
  have hpolled := h.sound.unended_polled hp ht
  have hfault := h.healthy.faultless d hp
  have hnone : { s.call with unchecked := [] } = s.call := by rw [← (CommitCall.done_iff.mp hidle).1]
  cases he with
  | quiet hl hf =>
      exact ⟨hf.trans hfault, h.settling.congr (hbroker ▸ .refl _) (hcall.trans hnone) htracker (by simp [hmarks])⟩
  | faults i l job rest f hi hw hj hl =>
      have hjob : ∀ r ∈ job.records, r ∈ polled s.marks := fun r hr => hpolled r (Dispatch.mem_todo hi (by
        simp [Dispatch.recordsIn, Lane.unended, hw, hr]))
      obtain ⟨ps, hps⟩ := positions_ok h.reading hjob
      simp [hps] at hj
  | starts i l job rest hi hr hw hl hf =>
      refine ⟨hf.trans hfault, h.settling.congr (hbroker ▸ .refl _) (hcall.trans hnone) htracker ?_⟩
      rw [hmarks, completed_append, completed_map_event]
      simp [Event.concluded]
  | finishes i l job o hi hr hl hf =>
      have hjob : ∀ r ∈ job.records, r ∈ polled s.marks := fun r hr' => hpolled r (Dispatch.mem_todo hi (by
        simp [Dispatch.recordsIn, Lane.unended, hr, hr']))
      obtain ⟨ps, hps⟩ := positions_ok h.reading hjob
      have hm : completed s'.marks = completed s.marks ++ job.records := by
        rw [hmarks, completed_append, completed_map_event, d.concluded_endEvents]
        simp
      have hpolled : polled s'.marks = polled s.marks := by simp [hmarks]
      refine ⟨hf.trans hfault, h.settling.finish h.reading hidle hps hjob (fun n => ?_) hm hbroker htracker ?_⟩
      · have hpre := hs.completed_prefix (b.cluster.partition n)
        rwa [hpolled] at hpre
      · rw [hcall, Dispatch.handedOver_endEvents, hps]
        rfl

theorem Exact.drive (h : Exact b s) (a : Drive) : Exact b (s.drive a) := by
  have hs := h.sound.drive a
  by_cases hg : s.attending && s.call.done
  · have hd : s.call.done := by simp_all
    by_cases hp : ∃ d, s.worker.phase = .dispatching d
    · obtain ⟨d, hp⟩ := hp
      have ht := h.sound.attentive (by simp_all)
      have heq := drive_dispatching (a := a) hg hp
      obtain ⟨hf, hsettling⟩ := h.effect hp ht hd (d.step_effect a) hs (by rw [heq]) (by rw [heq])
        (by rw [heq]) (by rw [heq])
      have hphase : (s.drive a).worker.phase = .dispatching (d.step a).1 := by rw [heq]; simp [Worker.reached, hf]
      refine ⟨hs, ⟨by simp [hphase], fun d' hd' => ?_, ?_, fun hn => absurd hphase (hn _)⟩, ?_, hsettling⟩
      · rw [hphase] at hd'
        cases hd'
        exact hf
      · rw [heq]
        exact h.healthy.unaborted
      · exact h.reading.congr (by rw [heq]; exact .refl _) (by rw [heq]) (by rw [heq]; simp)
    · rw [drive_idle hd (fun d hd' => hp ⟨d, hd'⟩)]
      exact h
  · have heq : s.drive a = s := by simp only [Pipeline.drive, hg]; rfl
    rw [heq]
    exact h

end Drive

theorem Exact.keep (h : Exact b s) (hs : Sound s') (hh : Healthy s') (hb : s'.broker = s.broker) (hc : s'.call = s.call)
    (ht : s'.tracker = s.tracker) (hp : polled s'.marks = polled s.marks)
    (hd : completed s'.marks = completed s.marks) : Exact b s' where
  sound := hs
  healthy := hh
  reading := h.reading.congr (hb ▸ .refl _) (by rw [hb]) hp
  settling := h.settling.congr (hb ▸ .refl _) hc ht hd

theorem Healthy.congr (h : Healthy s) (hw : s'.worker = s.worker) (ha : s'.listener.abortRequested = false)
    (hc : s'.call = s.call) : Healthy s' :=
  ⟨by simpa only [hw] using h.unbroken, by simpa only [hw] using h.faultless, ha, by simpa only [hw, hc] using h.idle⟩

theorem Exact.look (h : Exact b s) : Exact b s.look := by
  have hs := h.sound.look
  rw [Pipeline.look] at hs ⊢
  split
  · exact h
  · simp only [h.healthy.unaborted] at hs ⊢
    refine h.keep (by simp_all) (h.healthy.congr rfl h.healthy.unaborted rfl) rfl rfl rfl (by simp) ?_
    simp [Trace.completed, finished]

theorem Exact.receive (h : Exact b s) : Exact b s.receive := by
  have hs := h.sound.receive
  rw [Pipeline.receive] at hs ⊢
  split
  · next ha hp =>
      have hidle := h.healthy.idle (by simp [hp])
      simp only [ha, hp] at hs
      split
      · next q batch hq =>
          simp only [hq] at hs
          refine h.keep hs ⟨?_, ?_, h.healthy.unaborted, fun _ => hidle⟩ rfl rfl rfl ?_ ?_
          · simp [Pipeline.input, Worker.step, hp]
          · simp [Pipeline.input, Worker.step, hp, Dispatch.begin]
          · simp [Pipeline.input]
          · simp [Pipeline.input, Worker.step, hp]
      · next hq =>
          simp only [hq] at hs
          exact h.keep hs (h.healthy.congr rfl h.healthy.unaborted rfl) rfl rfl rfl rfl rfl
      · next hq =>
          simp only [hq] at hs
          have hstop := Event.concluded_silent (s.worker.silent_stop [])
          refine h.keep hs ⟨?_, ?_, h.healthy.unaborted, fun _ => hidle⟩ rfl rfl rfl ?_ ?_
          · simp [Pipeline.input, Worker.step, hp, Worker.stop]
          · simp [Pipeline.input, Worker.step, hp, Worker.stop]
          · simp [Pipeline.input]
          · simp only [Pipeline.input, Worker.step, hp, completed_append, completed_map_event, hstop]
            simp
  · exact h

theorem Exact.complete (h : Exact b s) : Exact b s.complete := by
  have hs := h.sound.complete
  rw [Pipeline.complete] at hs ⊢
  split
  · next hg =>
      have hd : s.call.done := by simp_all
      simp only [hg, if_true, Pipeline.input] at hs ⊢
      have he := s.worker.step_effect .complete
      generalize s.worker.step .complete = r at he hs ⊢
      obtain ⟨w, es⟩ := r
      cases he with
      | idle => exact h.keep hs (h.healthy.congr rfl h.healthy.unaborted rfl) rfl rfl rfl (by simp) (by simp)
      | completes d hp hdone =>
          exact h.keep hs ⟨by simp, by simp, h.healthy.unaborted, fun _ => hd⟩ rfl rfl rfl (by simp) (by simp)
  · exact h

theorem Healthy.commit (h : Healthy s) : Healthy s.commit where
  unbroken := h.unbroken
  faultless := h.faultless
  unaborted := h.unaborted
  idle hn := by
    have hd := h.idle hn
    rwa [Pipeline.commit, CommitCall.step_done hd]

/-- What may happen around a member that is to be exact: no abort, and others keep their hands off it. -/
def Move.Undisturbed : Move Connection → Prop
  | .abort => False
  | .elsewhere f => Bystander f
  | _ => True

theorem Exact.commits (h : Exact b s) (hc : b.member.trouble.commits = false) :
    s.broker.member.trouble.commits = false := h.reading.alike.commits.trans hc

theorem Exact.move (h : Exact b s) (hf : b.cluster.Fits) (hc : b.member.trouble.commits = false) {m : Move Connection}
    (hm : m.Undisturbed) : Exact b (s.move m) := by
  have hs := h.sound.move m
  cases m with
  | ask now heard =>
      refine ⟨hs, ?_, h.reading.ask now heard h.settling hf h.done_le, h.settling.ask now heard h.reading h.done_le⟩
      refine h.healthy.congr ?_ ?_ (ask_call now heard s).1
      · simp only [Pipeline.move, Pipeline.ask]
        split <;> simp [hear]
      · simp only [Pipeline.move, Pipeline.ask]
        split <;> simp [hear, h.healthy.unaborted]
  | look => exact h.look
  | receive => exact h.receive
  | drive a => exact h.drive a
  | complete => exact h.complete
  | commit =>
      exact ⟨hs, h.healthy.commit, h.reading.commit (h.commits hc), h.settling.commit (h.commits hc)⟩
  | rest =>
      simp only [Pipeline.move, Pipeline.rest] at hs ⊢
      split
      · exact h.keep (by simp_all) (h.healthy.congr rfl h.healthy.unaborted rfl) rfl rfl rfl rfl rfl
      · exact h
  | leave =>
      simp only [Pipeline.move, Pipeline.leave] at hs ⊢
      split
      · exact h.keep (by simp_all) (h.healthy.congr rfl h.healthy.unaborted rfl) rfl rfl rfl rfl rfl
      · exact h
  | requestStop => exact h.keep hs (h.healthy.congr rfl h.healthy.unaborted rfl) rfl rfl rfl rfl rfl
  | abort => exact hm.elim
  | elsewhere f =>
      obtain ⟨hsteady, hpositions⟩ := hm s.broker
      exact ⟨hs, h.healthy.congr rfl h.healthy.unaborted rfl, h.reading.congr hsteady.toAlike hpositions rfl,
        h.settling.congr hsteady rfl rfl rfl⟩

theorem Exact.run (h : Exact b s) (hf : b.cluster.Fits) (hc : b.member.trouble.commits = false)
    {ms : List (Move Connection)} (hm : ∀ m ∈ ms, m.Undisturbed) : Exact b (s.run ms) := by
  induction ms generalizing s with
  | nil => exact h
  | cons m ms ih =>
      obtain ⟨hm, hms⟩ := List.forall_mem_cons.mp hm
      exact ih (h.move hf hc hm) hms

theorem low_le_first (b : Connection) (n : Nat) : b.cluster.low n ≤ b.first n := Int.le_max_right ..

theorem least_le_first {b : Connection} (hf : b.cluster.Fits) (n : Nat) : Word.least ≤ b.first n := by
  refine Int.le_trans ?_ (low_le_first b n)
  cases hl : b.cluster.logs[n]? with
  | none => simp [Cluster.low, hl, Word.least]
  | some l => simpa [Cluster.low, hl] using hf.low l (List.mem_of_getElem? hl)

theorem exact_start {settings : ListenerSettings} (hf : b.cluster.Fits) (hm : b.member.Fresh)
    (h : start { settings := settings } {} b = .ok s) : Exact b s := by
  have hsound := sound_start h
  obtain ⟨q, hq, rfl⟩ := start_ok h
  refine ⟨hsound, ⟨by simp [Worker.start], by simp [Worker.start], rfl, fun _ => rfl⟩, ⟨.refl b, ?_, fun n => rfl, ?_⟩,
    ⟨?_, fun n _ => ?_, fun n => ?_, ?_, ?_, fun _ => hm.stored⟩⟩
  · simp [polled]
  · exact fun n => .inr ⟨hm.positions n, rfl⟩
  · simp [CommitCall.pending]
  · simp [promised, hm.stored, owed, doneOf, Trace.completed, finished, events]
  · have hfirst := least_le_first hf n
    simpa [Tracker.mark, Tracker.committed?, doneOf, Trace.completed, finished, events] using hfirst
  · simp
  · simp

theorem running_run (s : Pipeline Connection) (ms : List (Move Connection)) :
    (s.run ms).listener.running = s.listener.running := by
  refine run_invariant (P := fun t => t.listener.running = s.listener.running) (fun t m h => ?_) rfl ms
  rw [listener_move, ← h]
  cases m <;> rfl

def awaiting (s : Pipeline Connection) : Pipeline Connection :=
  { s.move .requestStop with listener := { (s.move .requestStop).listener with running := false } }

theorem Exact.awaiting (h : Exact b s) : Exact b s.awaiting := by
  have hs : Sound s.awaiting := h.sound.silent [] (by simp) (by simp [Pipeline.awaiting, Pipeline.move]) rfl rfl rfl rfl id id
  exact h.keep hs (h.healthy.congr rfl h.healthy.unaborted rfl) rfl rfl rfl rfl rfl

theorem stop_eq (hr : s.listener.running) (meanwhile : List (Move Connection)) (ms : Nat) (observed : Bool) :
    s.stop meanwhile ms observed =
      let e := s.awaiting.run meanwhile
      let w := e.listener.waited
        (if e.loop.phase = .ended ∧ e.worker.ended then .drained e.worker.fault? else .timedOut ms observed)
      ({ e with listener := w.1, broker := e.broker.close }, w.2.1) := by
  have hawait : (s.move .requestStop).listener.awaitStopped =
      some { (s.move .requestStop).listener with running := false } := by
    simp [Pipeline.move, Listener.requestStop, Listener.awaitStopped, hr]
  simp only [stop, hawait]
  rfl

theorem stop_drained {meanwhile : List (Move Connection)} {ms : Nat} {observed : Bool} (hr : s.listener.running)
    (h : (s.stop meanwhile ms observed).2) :
    (s.awaiting.run meanwhile).worker.ended ∧
      (s.stop meanwhile ms observed).1.marks = (s.awaiting.run meanwhile).marks ∧
      (s.stop meanwhile ms observed).1.broker = (s.awaiting.run meanwhile).broker.close := by
  rw [stop_eq hr] at h ⊢
  by_cases hw : (s.awaiting.run meanwhile).loop.phase = .ended ∧ (s.awaiting.run meanwhile).worker.ended
  · exact ⟨hw.2, rfl, rfl⟩
  · simp only [if_neg hw] at h
    simp [Listener.waited] at h

/-- The worker has come to its end by itself: all that it began is done, and all that it handed over is settled. -/
theorem Exact.at_end (h : Exact b s) (hw : s.worker.ended) :
    (∀ p : Partition, p.part (started s.marks) = p.part (completed s.marks)) ∧
      ∀ n : Nat, s.broker.promised n = b.owed s.marks n := by
  obtain ⟨us, ue, hb, hl⟩ := h.sound.accounted
  rw [h.healthy.unaborted] at hl
  have hidle : s.call.done := h.healthy.idle (fun d hd => by simp [Worker.ended, hd] at hw)
  refine ⟨fun p => ?_, fun n => h.settling.settled n (fun q hq => ?_)⟩
  · generalize hp : s.worker.phase = phase at hl
    generalize s.taken = taken at hl
    cases hl with
    | waiting | taken _ | dispatching _ _ => simp [Worker.ended, hp] at hw
    | failed _ _ _ f => exact absurd hp (h.healthy.unbroken f)
    | stopped _ _ _ hn =>
        obtain ⟨rfl, rfl⟩ := hn rfl
        have hs := hb.started p
        have hc := hb.completed p
        simp only [Partition.part_nil, List.append_nil] at hs hc
        rw [hs, hc]
  · have hempty := CommitCall.done_iff.mp hidle
    simp [CommitCall.pending, hempty] at hq

/-- The records are those of partition `n` from where the group stood, one offset after another, and in the cluster that
is left behind the group stands behind them, where its next member begins. Where there are none, it stands as it did. -/
def Continues (b : Connection) (rs : List Record) (c : Cluster) (n : Nat) : Prop :=
  ∃ k : Nat, ((b.cluster.partition n).part rs).map Record.offset = b.span n k ∧
    c.committed? b.member.group n = (if k = 0 then b.cluster.committed? b.member.group n else some (b.first n + k)) ∧
    ∀ m : Member, m.Fresh → m.group = b.member.group → ∀ l, c.logs[n]? = some l → m.position c n l = b.first n + k

theorem Exact.continues (h : Exact b s) (hw : s.worker.ended) (n : Nat) :
    Continues b (started s.marks) s.broker.close.cluster n := by
  obtain ⟨hstarted, hpromised⟩ := h.at_end hw
  have hgroup : s.broker.member.group = b.member.group := h.reading.alike.group
  have hcommitted : s.broker.close.cluster.committed? b.member.group n = b.owed s.marks n := by
    rw [← hgroup, committed_close, hpromised n]
  have hlow : s.broker.close.cluster.low n = b.cluster.low n :=
    (h.reading.alike.trans (steady_close s.broker).toAlike).low n
  have hfirst := low_le_first b n
  refine ⟨(b.doneOf s.marks n).length, ?_, hcommitted, ?_⟩
  · rw [hstarted]
    exact span_of_prefix (h.sound.completed_prefix _) (h.reading.inOrder n)
  · intro m hm hg l hl
    rw [hm.position hl, hg, Cluster.resumeAt, hcommitted, hlow, owed]
    split
    · next hk => simp [hk, first, Cluster.resumeAt]
    · next hk => exact Int.max_eq_left (by omega : b.cluster.low n ≤ b.first n + (b.doneOf s.marks n).length)

/-- A listener over a fresh member that is stopped in time has started the callbacks for the offsets from where its
group stood to where the group stands now, each once and in order, and the next member goes on from there. -/
theorem resumes_exactly {settings : ListenerSettings} (hf : b.cluster.Fits) (hm : b.member.Fresh)
    (hstart : start { settings := settings } {} b = .ok s) {before meanwhile : List (Move Connection)}
    (hquiet : ∀ m ∈ before ++ meanwhile, m.Undisturbed) {ms : Nat} {observed : Bool}
    (hstop : ((s.run before).stop meanwhile ms observed).2) :
    let s' := ((s.run before).stop meanwhile ms observed).1
    (∀ r ∈ started s'.marks, ∃ n < b.cluster.size, r.partition = b.cluster.partition n) ∧
      ∀ n < b.cluster.size, Continues b (started s'.marks) s'.broker.cluster n := by
  have hbefore := (exact_start hf hm hstart).run hf hm.commits (fun m hb => hquiet m (List.mem_append_left _ hb))
  have hend := hbefore.awaiting.run hf hm.commits (fun m hm => hquiet m (List.mem_append_right _ hm))
  have hrunning : (s.run before).listener.running := by
    obtain ⟨q, -, rfl⟩ := start_ok hstart
    rw [running_run]
  obtain ⟨hended, hmarks, hbroker⟩ := stop_drained hrunning hstop
  intro s'
  rw [hmarks, hbroker]
  constructor
  · intro r hr
    have hp := (hend.sound.started_prefix r.partition).subset (Partition.mem_part.mpr ⟨hr, rfl⟩)
    exact (hend.reading.known r (Partition.mem_part.mp hp).1).2
  · intro n _
    exact hend.continues hended n

def untilStop : List (Move Connection) :=
  List.replicate 6 (.ask 0 true) ++ [.look, .receive, .look, .drive (.turn 0), .drive (.ended .ok), .commit, .commit,
    .complete, .look, .receive, .elsewhere (arrive 0 [])] ++ List.replicate 4 (.ask 0 true)

def afterStop : List (Move Connection) :=
  List.replicate 6 (.ask 0 true) ++ [.look, .receive, .look, .drive (.turn 0), .drive (.ended (.panicked .other)),
    .commit, .commit, .complete, .look, .receive]

theorem resumes_exactly_at_two : ∃ s, start narrow {} threeRecords = .ok s ∧
    let s' := ((s.run untilStop).stop afterStop 0 true).1
    (∀ r ∈ started s'.marks, ∃ n < threeRecords.cluster.size, r.partition = threeRecords.cluster.partition n) ∧
      (∀ n < threeRecords.cluster.size, Continues threeRecords (started s'.marks) s'.broker.cluster n) ∧
      (started s'.marks).map Record.offset = [0, 1] ∧ s'.broker.cluster.committed? "readers" 0 = some 2 := by
  have hname : Fault.ofThreadName? narrow.threadName = none := by decide +kernel
  have hstart : ∃ s, start narrow {} threeRecords = .ok s ∧ ((s.run untilStop).stop afterStop 0 true).2 ∧
      (started ((s.run untilStop).stop afterStop 0 true).1.marks).map Record.offset = [0, 1] ∧
      ((s.run untilStop).stop afterStop 0 true).1.broker.cluster.committed? "readers" 0 = some 2 := by
    rw [start, Listener.start]
    rw [hname]
    exact ⟨_, rfl, by decide +kernel, by decide +kernel, by decide +kernel⟩
  obtain ⟨s, hs, hstop, hstarted, hcommitted⟩ := hstart
  have hfits : threeRecords.cluster.Fits := ⟨by decide, by decide⟩
  have hfresh : threeRecords.member.Fresh := ⟨fun _ => rfl, fun _ => rfl, rfl⟩
  have hquiet : ∀ m ∈ untilStop ++ afterStop, m.Undisturbed := by
    simp [untilStop, afterStop, List.replicate, Move.Undisturbed, bystander_arrive]
  obtain ⟨hknown, hexact⟩ := resumes_exactly hfits hfresh hs hquiet hstop
  exact ⟨s, hs, hknown, hexact, hstarted, hcommitted⟩

end Pipeline

end StreamTrigger
