import StreamTrigger.Proofs.Agreement

namespace StreamTrigger

def Backed (es : List Event) : Prop :=
  ∀ pre qs post, es = pre ++ .handed qs :: post → ∃ job o, .ended job o ∈ pre ∧ qs = job.next

namespace Backed

variable {es es' : List Event}

theorem append (h : Backed es) (h' : Backed es') : Backed (es ++ es') := by
  intro pre qs post he
  rcases List.append_eq_append_iff.mp he with ⟨as, rfl, hes'⟩ | ⟨_ | ⟨x, bs⟩, hes, hx⟩
  · obtain ⟨job, o, hmem, hqs⟩ := h' as qs post hes'
    exact ⟨job, o, List.mem_append_right _ hmem, hqs⟩
  · obtain ⟨job, o, hmem, -⟩ := h' [] qs post hx.symm
    simp at hmem
  · obtain ⟨rfl, -⟩ := List.cons.inj hx
    exact h pre qs bs hes

theorem of_not_handed (h : ∀ qs, .handed qs ∉ es) : Backed es := by
  rintro pre qs post rfl
  exact absurd (by simp) (h qs)

theorem endEvents (d : Dispatch) {job : Invocation} (hjob : ∃ qs, job.positions = .ok qs) (o : Outcome) :
    Backed (d.endEvents job o) := by
  intro pre qs post he
  rw [Dispatch.endEvents, Invocation.positions_eq_next hjob] at he
  have hended : .ended job o ∈ d.endReport job o := List.mem_cons_self
  rcases List.append_eq_append_iff.mp he with ⟨as, rfl, hx⟩ | ⟨_ | ⟨x, bs⟩, hreport, hx⟩
  · have hqs : qs = job.next := by
      rcases List.singleton_eq_append_iff.mp hx with ⟨-, hx⟩ | ⟨-, hx⟩ <;> simp_all
    exact ⟨job, o, List.mem_append_left _ hended, hqs⟩
  · rw [List.append_nil] at hreport
    obtain ⟨hqs, -⟩ := List.cons.inj hx
    exact ⟨job, o, hreport ▸ hended, Event.handed.inj hqs⟩
  · obtain ⟨rfl, -⟩ := List.cons.inj hx
    exact absurd (by simp [hreport]) (d.handed_endReport job o qs)

end Backed

theorem Event.starts_mem_acts {es : List Event} {job : Invocation} :
    .starts job ∈ es.filterMap act? ↔ .started job ∈ es := by
  simp only [List.mem_filterMap]
  constructor
  · rintro ⟨e, he, hact⟩
    cases e with
    | started i => exact Act.starts.inj (Option.some.inj hact) ▸ he
    | ended | handed | stored | committed | noted => simp [act?] at hact
  · exact fun h => ⟨_, h, rfl⟩

theorem Partition.ends_mem_course {p : Partition} {b : Batch} {r : Record} :
    .ends (.single r) ∈ p.course .single b ↔ r ∈ b ∧ r.partition = p := by
  simp [course, Partition.mem_part]

theorem Invocation.known_iff {i : Invocation} (hi : ∀ r ∈ i.records, Word.Fits r.offset) :
    (∃ qs, i.positions = .ok qs) ↔ ∀ r ∈ i.records, r.offset ≠ Word.greatest := by
  rcases Batch.nextPositions_cases hi with ⟨hok, hnone⟩ | ⟨herror, r, hr, hlast⟩
  · exact iff_of_true hok hnone
  · refine iff_of_false ?_ (fun h => h r hr hlast)
    rintro ⟨qs, hqs⟩
    rw [positions, herror] at hqs
    cases hqs

namespace Dispatch

variable {d d' : Dispatch} {es : List Event}

theorem backed_effect (h : Orderly d) (he : Effect d d' es) : Backed es := by
  cases he with
  | quiet | faults | starts => exact .of_not_handed (by simp)
  | finishes i l job o hi hr => exact .endEvents d (h.known l (List.mem_of_getElem? hi) job (by simp [Lane.current, hr])) o

theorem backed_run (h : Orderly d) (as : List Drive) : Backed (d.run as).2 := by
  induction as generalizing d with
  | nil => exact .of_not_handed (by simp [run])
  | cons a as ih => exact (backed_effect h (d.step_effect a)).append (ih (h.effect (d.step_effect a)))

theorem started_run (d : Dispatch) {as : List Drive} {job : Invocation} (h : .started job ∈ (d.run as).2) :
    ∃ qs, job.positions = .ok qs := by
  induction as generalizing d with
  | nil => simp [run] at h
  | cons a as ih =>
      rcases List.mem_append.mp h with h | h
      · exact started_known (d.step_effect a) h
      · exact ih _ h

theorem fault_effect (he : Effect d d' es) {f : Fault} (hf : d'.fault = some f) :
    d.fault = some f ∨ ∃ job, .starts job ∈ d.ahead ∧ job.positions = .error f := by
  cases he with
  | quiet _ hfault => exact .inl (hfault ▸ hf)
  | faults i l job rest f' hi hw hpos _ hfault =>
      obtain rfl : f' = f := by simpa [hfault] using hf
      refine .inr ⟨job, List.mem_flatMap.mpr ⟨l, List.mem_of_getElem? hi, ?_⟩, hpos⟩
      simp [Lane.ahead, hw, Invocation.course]
  | starts _ _ _ _ _ _ _ _ hfault => exact .inl (hfault ▸ hf)
  | finishes _ _ _ _ _ _ _ hfault => exact .inl (hfault ▸ hf)

theorem fault_run (h : Orderly d) {as : List Drive} {f : Fault} (hf : (d.run as).1.fault = some f) :
    d.fault = some f ∨ ∃ job, .starts job ∈ d.ahead ∧ job.positions = .error f := by
  induction as generalizing d with
  | nil => exact .inl hf
  | cons a as ih =>
      have he := d.step_effect a
      rcases ih (h.effect he) hf with hfault | ⟨job, hjob, hpos⟩
      · exact fault_effect he hfault
      · exact .inr ⟨job, (ahead_perm h.known he).mem_iff.mpr (List.mem_append_right _ hjob), hpos⟩

/-- Where every lane has come to an invocation without positions, nothing is ever seen. -/
theorem run_stuck (h : ∀ l ∈ d.lanes, l.running = none ∧ ∀ job rest, l.waiting = job :: rest → ∃ f, job.positions = .error f)
    (as : List Drive) : (d.run as).2 = [] := by
  induction as generalizing d with
  | nil => rfl
  | cons a as ih =>
      have he := d.step_effect a
      rw [run]
      generalize d.step a = x at he
      obtain ⟨d', es⟩ := x
      cases he with
      | quiet hl | faults _ _ _ _ _ _ _ _ hl => simpa using ih (fun l hm => h l (hl ▸ hm))
      | starts i l job rest hi _ hw _ _ hknown =>
          obtain ⟨f, hf⟩ := (h l (List.mem_of_getElem? hi)).2 job rest hw
          simp [hf] at hknown
      | finishes i l job o hi hr =>
          simp [(h l (List.mem_of_getElem? hi)).1] at hr

section Begin

variable {mode : DispatchMode} {b : Batch}

theorem mem_invocations {job : Invocation} (h : job ∈ mode.invocations b) : ∀ r ∈ job.records, r ∈ b :=
  fun _ hr => (records_invocations mode b).mem_iff.mp (List.mem_flatMap.mpr ⟨job, h, hr⟩)

theorem starts_mem_ahead {job : Invocation} (h : .starts job ∈ (begin mode b).ahead) : job ∈ mode.invocations b := by
  rw [ahead_begin_invocations] at h
  obtain ⟨i, hi, hjob⟩ := List.mem_flatMap.mp h
  obtain rfl : job = i := by simpa [Invocation.course] using hjob
  exact hi

theorem fault_begin (hb : ∀ r ∈ b, Word.Fits r.offset) {as : List Drive} {f : Fault}
    (hf : ((begin mode b).run as).1.fault = some f) : f = .addOverflow ∧ ∃ r ∈ b, r.offset = Word.greatest := by
  obtain hnone | ⟨job, hjob, hpos⟩ := fault_run (orderly_begin mode b) hf
  · simp [begin] at hnone
  · have hrecords := mem_invocations (starts_mem_ahead hjob)
    rcases Batch.nextPositions_cases (fun r hr => hb r (hrecords r hr)) with ⟨⟨qs, hqs⟩, -⟩ | ⟨herror, r, hr, hlast⟩
    · rw [Invocation.positions, hqs] at hpos
      cases hpos
    · rw [Invocation.positions, herror] at hpos
      exact ⟨(Except.error.inj hpos).symm, r, hrecords r hr, hlast⟩

theorem started_of_done {as : List Drive} (hd : ((begin mode b).run as).1.done) {job : Invocation}
    (hjob : job ∈ mode.invocations b) : .started job ∈ ((begin mode b).run as).2 := by
  obtain ⟨-, -, hperm⟩ := (orderly_begin mode b).run as
  rw [ahead_done hd, List.append_nil, ahead_begin_invocations] at hperm
  have hstarts : .starts job ∈ ((begin mode b).run as).2.filterMap Event.act? :=
    hperm.mem_iff.mp (List.mem_flatMap.mpr ⟨job, hjob, by simp [Invocation.course]⟩)
  exact Event.starts_mem_acts.mp hstarts

theorem not_done_of_last (hb : ∀ r ∈ b, Word.Fits r.offset) (hlast : ∃ r ∈ b, r.offset = Word.greatest)
    (as : List Drive) : ((begin mode b).run as).1.done = false := by
  obtain ⟨r, hr, hgreatest⟩ := hlast
  obtain ⟨job, hjob, hrjob⟩ := List.mem_flatMap.mp ((records_invocations mode b).mem_iff.mpr hr)
  rw [Bool.eq_false_iff]
  intro hd
  have hknown := started_run _ (started_of_done hd hjob)
  exact (job.known_iff (fun r hr => hb r (mem_invocations hjob r hr))).mp hknown r hrjob hgreatest

end Begin

theorem multi_silent {b : Batch} (hb : ∀ r ∈ b, Word.Fits r.offset) (hlast : ∃ r ∈ b, r.offset = Word.greatest)
    (as : List Drive) : ((begin .multi b).run as).2 = [] := by
  refine run_stuck (fun l hl => ⟨running_plan hl, fun job rest hw => ?_⟩) as
  have hjob : job = .batch b := by
    cases b with
    | nil => simp [begin, DispatchMode.plan] at hl
    | cons r rs =>
        obtain rfl : l = { waiting := [.batch (r :: rs)] } := by simpa [begin, DispatchMode.plan] using hl
        exact (List.cons.inj hw).1.symm
  rcases Batch.nextPositions_cases hb with ⟨-, hnone⟩ | ⟨herror, -⟩
  · obtain ⟨r, hr, hgreatest⟩ := hlast
    exact absurd hgreatest (hnone r hr)
  · exact ⟨.addOverflow, by rw [hjob]; exact herror⟩

section Single

variable {pre post : List Record} {x : Record}

theorem prefix_of_not_mem {α : Type} {xs ys zs : List α} {a : α} (h : xs <+: ys ++ a :: zs) (ha : a ∉ xs) : xs <+: ys := by
  by_cases hle : xs.length ≤ ys.length
  · exact List.prefix_of_prefix_length_le h (List.prefix_append ys _) hle
  · have hlong : ys ++ [a] <+: xs := List.prefix_of_prefix_length_le ⟨zs, by simp⟩ h (by simp; omega)
    exact absurd (hlong.subset (by simp)) ha

theorem acts_before_last (hx : x.offset = Word.greatest) (as : List Drive) (p : Partition) :
    p.acts ((begin .single (pre ++ x :: post)).run as).2 <+:
      p.course .single (if p = x.partition then pre else pre ++ x :: post) := by
  obtain ⟨-, hacts, -⟩ := (orderly_begin .single (pre ++ x :: post)).run as
  have hprefix : p.acts ((begin .single (pre ++ x :: post)).run as).2 <+: p.course .single (pre ++ x :: post) :=
    ⟨_, by rw [← hacts p, ahead_begin]⟩
  by_cases hp : p = x.partition
  · have hcourse : p.course .single (pre ++ x :: post) = p.course .single pre ++ .starts (.single x) ::
        (.ends (.single x) :: .commits [⟨p, x.offset + 1⟩] :: p.course .single post) := by
      simp [Partition.course, Partition.part, hp]
    rw [if_pos hp]
    refine prefix_of_not_mem (hcourse ▸ hprefix) (fun hmem => ?_)
    have hknown := started_run _ (Event.starts_mem_acts.mp (List.mem_filter.mp hmem).1)
    refine (Invocation.known_iff ?_).mp hknown x (by simp [Invocation.records]) hx
    simp [Invocation.records, hx, Word.Fits, Word.least, Word.greatest]
  · rw [if_neg hp]
    exact hprefix

theorem handed_before_last (hx : x.offset = Word.greatest) {as : List Drive} {es es' : List Event} {qs : List Position}
    (h : ((begin .single (pre ++ x :: post)).run as).2 = es ++ .handed qs :: es') :
    ∃ r o, qs = [⟨r.partition, r.offset + 1⟩] ∧ .ended (.single r) o ∈ es ∧
      (r ∈ pre ∨ r ∈ pre ++ x :: post ∧ r.partition ≠ x.partition) := by
  obtain ⟨job, o, hended, hqs⟩ := backed_run (orderly_begin .single _) as es qs es' h
  have hends : .ends job ∈ ((begin .single (pre ++ x :: post)).run as).2.filterMap Event.act? :=
    List.mem_filterMap.mpr ⟨.ended job o, h ▸ List.mem_append_left _ hended, rfl⟩
  obtain ⟨r, rfl⟩ : ∃ r, job = .single r := by
    have hahead := ((orderly_begin .single (pre ++ x :: post)).run as).2.2.mem_iff.mpr (List.mem_append_left _ hends)
    rw [ahead_begin_invocations] at hahead
    obtain ⟨i, hi, hjob⟩ := List.mem_flatMap.mp hahead
    obtain rfl : job = i := by simpa [Invocation.course] using hjob
    obtain ⟨g, -, r, -, hr⟩ : ∃ g ∈ Batch.groups (pre ++ x :: post), ∃ r ∈ g.records, .single r = job := by
      simpa [DispatchMode.invocations, DispatchMode.plan] using hi
    exact ⟨r, hr.symm⟩
  refine ⟨r, o, hqs.trans (Invocation.next_single r), hended, ?_⟩
  have hacts : .ends (.single r) ∈ r.partition.acts ((begin .single (pre ++ x :: post)).run as).2 :=
    List.mem_filter.mpr ⟨hends, by simp [Act.touches, Invocation.touches, Invocation.records]⟩
  have hcourse := (acts_before_last hx as r.partition).subset hacts
  split at hcourse
  · exact .inl (Partition.ends_mem_course.mp hcourse).1
  · next hp => exact .inr ⟨(Partition.ends_mem_course.mp hcourse).1, hp⟩

end Single

/-- Callbacks may end in any way. A dispatch comes to its end unless the batch has a record at the greatest offset, and
then it ends in a fault: with a batch at a time, before anything is seen of it; with a record at a time, before anything
is seen of that record or of those behind it in its partition. -/
theorem faults_iff_last_offset (b : Batch) (hb : ∀ r ∈ b, Word.Fits r.offset) :
    (∀ (mode : DispatchMode) (as : List Drive) (f : Fault), ((begin mode b).run as).1.fault = some f →
      f = .addOverflow ∧ ∃ r ∈ b, r.offset = Word.greatest) ∧
    (∀ (mode : DispatchMode) (σ : Nat → Nat × List Outcome), Fair (begin mode b) σ →
      ((∃ n, ((begin mode b).run (drives σ n)).1.fault.isSome) ↔ ∃ r ∈ b, r.offset = Word.greatest) ∧
      ((∀ r ∈ b, r.offset ≠ Word.greatest) → ∃ n, ((begin mode b).run (drives σ n)).1.done)) ∧
    ((∃ r ∈ b, r.offset = Word.greatest) → ∀ as, ((begin .multi b).run as).2 = []) ∧
    ∀ pre x post, b = pre ++ x :: post → x.offset = Word.greatest → ∀ as,
      (∀ p : Partition, p.acts ((begin .single b).run as).2 <+: p.course .single (if p = x.partition then pre else b)) ∧
      ∀ es qs es', ((begin .single b).run as).2 = es ++ .handed qs :: es' →
        ∃ r o, qs = [⟨r.partition, r.offset + 1⟩] ∧ .ended (.single r) o ∈ es ∧
          (r ∈ pre ∨ r ∈ b ∧ r.partition ≠ x.partition) := by
  refine ⟨fun mode as f hf => fault_begin hb hf, fun mode σ hfair => ?_, multi_silent hb, ?_⟩
  · obtain ⟨n, hn⟩ := hfair.finishes_or_faults rfl
    refine ⟨⟨fun ⟨m, hm⟩ => ?_, fun hlast => ⟨n, ?_⟩⟩, fun hnone => ⟨n, ?_⟩⟩
    · obtain ⟨f, hf⟩ := Option.isSome_iff_exists.mp hm
      exact (fault_begin hb hf).2
    · exact hn.resolve_left (by simp [not_done_of_last hb hlast])
    · refine hn.resolve_right (fun hfault => ?_)
      obtain ⟨f, hf⟩ := Option.isSome_iff_exists.mp hfault
      obtain ⟨r, hr, hgreatest⟩ := (fault_begin hb hf).2
      exact hnone r hr hgreatest
  · rintro pre x post rfl hx as
    exact ⟨acts_before_last hx as, fun es qs es' => handed_before_last hx⟩

def upToLast : Batch := [{ partition := ⟨"events", 1⟩, offset := 4 }, { partition := ⟨"events", 0⟩, offset := Word.greatest },
  { partition := ⟨"events", 1⟩, offset := 5 }]

theorem faults_up_to_last : (∀ r ∈ upToLast, Word.Fits r.offset) ∧ Fair (begin .single upToLast) everyLane ∧
    (∃ n, ((begin .single upToLast).run (drives everyLane n)).1.fault.isSome) ∧
    ∀ as, ((begin .multi upToLast).run as).2 = [] ∧
      Partition.acts ⟨"events", 0⟩ ((begin .single upToLast).run as).2 = [] := by
  have hb : ∀ r ∈ upToLast, Word.Fits r.offset := by decide
  have hlast : ∃ r ∈ upToLast, r.offset = Word.greatest := by decide
  obtain ⟨-, hfaults, hsilent, hsingle⟩ := faults_iff_last_offset upToLast hb
  refine ⟨hb, fair_everyLane _, (hfaults .single everyLane (fair_everyLane _)).1.mpr hlast, fun as => ⟨hsilent hlast as, ?_⟩⟩
  exact List.prefix_nil.mp ((hsingle [_] _ [_] rfl rfl as).1 ⟨"events", 0⟩)

end Dispatch

end StreamTrigger
