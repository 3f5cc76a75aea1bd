import StreamTrigger.Proofs.CommitCalls
import StreamTrigger.Proofs.Lanes

namespace StreamTrigger

inductive Act where
  | starts (i : Invocation)
  | ends (i : Invocation)
  | commits (qs : List Position)
deriving DecidableEq, Repr

def Event.act? : Event → Option Act
  | started i => some (.starts i)
  | ended i _ => some (.ends i)
  | handed qs => some (.commits qs)
  | _ => none

theorem Event.acts_silent {es : List Event} (h : ∀ e ∈ es, e.silent) : es.filterMap act? = [] :=
  List.filterMap_eq_nil_iff.mpr (fun e he => by have := h e he; cases e <;> simp_all [act?, silent])

namespace Invocation

def touches (p : Partition) (i : Invocation) : Bool := i.records.any (fun r => r.partition = p)

def next (i : Invocation) : List Position := (Batch.ranked i.records).map (fun e => ⟨e.1, e.2 + 1⟩)

def course (i : Invocation) : List Act := [.starts i, .ends i, .commits i.next]

theorem next_single (r : Record) : (single r).next = [⟨r.partition, r.offset + 1⟩] := by
  simp [next, records, Batch.ranked, Batch.highest, Table.insert, Table.put, Table.empty, Table.get?, Table.find]

theorem mem_next {i : Invocation} {p : Partition} : (∃ q ∈ i.next, q.partition = p) ↔ ∃ r ∈ i.records, r.partition = p := by
  have hrank : (∃ q ∈ i.next, q.partition = p) ↔ ∃ o, (Batch.highest i.records).get? p = some o := by
    simp only [next, List.mem_map]
    constructor
    · rintro ⟨_, ⟨⟨p, o⟩, he, rfl⟩, rfl⟩
      exact ⟨o, Batch.mem_ranked.mp he⟩
    · rintro ⟨o, ho⟩
      exact ⟨⟨p, o + 1⟩, ⟨(p, o), Batch.mem_ranked.mpr ho, rfl⟩, rfl⟩
  obtain ⟨hnone, hsome⟩ := Batch.highest_spec i.records p
  rw [hrank]
  constructor
  · rintro ⟨o, ho⟩
    obtain ⟨⟨r, hr, hp, -⟩, -⟩ := hsome o ho
    exact ⟨r, hr, hp⟩
  · rintro ⟨r, hr, hp⟩
    by_contra hn
    exact hnone (Option.eq_none_iff_forall_ne_some.mpr (fun o ho => hn ⟨o, ho⟩)) r hr hp

theorem positions_eq_next {i : Invocation} (h : ∃ qs, i.positions = .ok qs) : i.positions.toOption.getD [] = i.next := by
  obtain ⟨qs, hqs⟩ := h
  rw [hqs]
  exact Batch.nextPositions_eq hqs

end Invocation

def Act.touches (p : Partition) : Act → Bool
  | starts i | ends i => i.touches p
  | commits qs => qs.any (fun q => q.partition = p)

theorem Invocation.touches_next (p : Partition) (i : Invocation) : (Act.commits i.next).touches p = i.touches p := by
  rw [Bool.eq_iff_iff]
  simpa [Act.touches, Invocation.touches] using i.mem_next

theorem Invocation.filter_course (p : Partition) (i : Invocation) :
    i.course.filter (Act.touches p) = if i.touches p then i.course else [] := by
  have hn := i.touches_next p
  cases h : i.touches p <;> simp [course, Act.touches, h] at hn ⊢ <;> exact hn

namespace Partition

def acts (p : Partition) (es : List Event) : List Act := (es.filterMap Event.act?).filter (Act.touches p)

/-- What is seen of a partition while a batch is dispatched without a break. -/
def course (p : Partition) : DispatchMode → Batch → List Act
  | .single, b => (p.part b).flatMap (fun r => [.starts (.single r), .ends (.single r), .commits [⟨p, r.offset + 1⟩]])
  | .multi, b => if p.part b = [] then [] else (Invocation.batch b).course

@[simp] theorem acts_append (p : Partition) (es es' : List Event) : p.acts (es ++ es') = p.acts es ++ p.acts es' := by
  simp [acts]

theorem acts_silent (p : Partition) {es : List Event} (h : ∀ e ∈ es, e.silent) : p.acts es = [] := by
  rw [acts, Event.acts_silent h, List.filter_nil]

end Partition

def Lane.ahead (l : Lane) : List Act :=
  l.running.toList.flatMap (fun i => [.ends i, .commits i.next]) ++ l.waiting.flatMap Invocation.course

def Lane.current (l : Lane) : List Invocation := l.running.toList

namespace Dispatch

def ahead (d : Dispatch) : List Act := d.lanes.flatMap Lane.ahead

def Known (f : Lane → List Invocation) (d : Dispatch) : Prop := ∀ l ∈ d.lanes, ∀ i ∈ f l, ∃ qs, i.positions = .ok qs

theorem part_of_touches {p : Partition} {l : Lane} {a : Act} (ha : a ∈ l.ahead) (ht : a.touches p) :
    ∃ r ∈ recordsIn Lane.unended l, r.partition = p := by
  have hmem : ∃ i ∈ l.unended, i.touches p := by
    simp only [Lane.ahead, Invocation.course, List.mem_append, List.mem_flatMap, List.mem_cons, List.not_mem_nil, or_false] at ha
    rcases ha with ⟨i, hi, rfl | rfl⟩ | ⟨i, hi, rfl | rfl | rfl⟩
    · exact ⟨i, List.mem_append_left _ hi, ht⟩
    · exact ⟨i, List.mem_append_left _ hi, i.touches_next p ▸ ht⟩
    · exact ⟨i, List.mem_append_right _ hi, ht⟩
    · exact ⟨i, List.mem_append_right _ hi, ht⟩
    · exact ⟨i, List.mem_append_right _ hi, i.touches_next p ▸ ht⟩
  obtain ⟨i, hi, htouch⟩ := hmem
  obtain ⟨r, hr, hp⟩ := List.any_eq_true.mp htouch
  exact ⟨r, List.mem_flatMap.mpr ⟨i, hi, hr⟩, by simpa using hp⟩

theorem Separate.ahead {ls : List Lane} (hs : Separate Lane.unended ls) (p : Partition) :
    ls.Pairwise (fun l m => l.ahead.filter (Act.touches p) = [] ∨ m.ahead.filter (Act.touches p) = []) := by
  refine hs.imp (fun {l m} h => ?_)
  have hnone {k : Lane} (hk : p.part (recordsIn Lane.unended k) = []) : k.ahead.filter (Act.touches p) = [] := by
    refine List.filter_eq_nil_iff.mpr (fun a ha ht => ?_)
    obtain ⟨r, hr, hp⟩ := part_of_touches ha ht
    have hr' := Partition.mem_part.mpr ⟨hr, hp⟩
    rw [hk] at hr'
    simp at hr'
  exact (Apart.part_nil_or h p).imp hnone hnone

section End

variable (d : Dispatch) (job : Invocation) (o : Outcome)

theorem acts_endEvents (h : ∃ qs, job.positions = .ok qs) :
    (d.endEvents job o).filterMap Event.act? = [.ends job, .commits job.next] := by
  have hn := Invocation.positions_eq_next h
  simp [endEvents, endReport, List.filterMap_cons, List.filterMap_map, Function.comp_def, Event.act?, hn]

end End

theorem ahead_lane {d d' : Dispatch} {es : List Event} (hk : Known Lane.current d) (he : Effect d d' es) :
    d'.lanes = d.lanes ∧ es.filterMap Event.act? = [] ∨
      ∃ (i : Nat) (l l' : Lane), d.lanes[i]? = some l ∧ d'.lanes = d.lanes.set i l' ∧
        l.ahead = es.filterMap Event.act? ++ l'.ahead := by
  cases he with
  | quiet hl hf => exact .inl ⟨hl, rfl⟩
  | faults i l job rest f _ _ _ hl => exact .inl ⟨hl, rfl⟩
  | starts i l job rest hi hr hw hl hf =>
      exact .inr ⟨i, l, ⟨some job, rest⟩, hi, hl, by simp [Lane.ahead, hr, hw, Event.act?, Invocation.course]⟩
  | finishes i l job o hi hr hl hf =>
      have hjob := hk l (List.mem_of_getElem? hi) job (by simp [Lane.current, hr])
      exact .inr ⟨i, l, { l with running := none }, hi, hl, by simp [Lane.ahead, hr, d.acts_endEvents job o hjob]⟩

/-- What was ahead of a partition is what is seen of it now and what is ahead then. -/
theorem ahead_step {d d' : Dispatch} {es : List Event} (hs : Separate Lane.unended d.lanes)
    (hk : Known Lane.current d) (he : Effect d d' es) (p : Partition) :
    d.ahead.filter (Act.touches p) = p.acts es ++ d'.ahead.filter (Act.touches p) := by
  rcases ahead_lane hk he with ⟨hl, hnone⟩ | ⟨i, l, l', hi, hl, hahead⟩
  · simp [ahead, hl, Partition.acts, hnone]
  · rw [ahead, ahead, hl, Partition.acts]
    exact filter_flatMap_set (hs.ahead p) hi hahead

theorem ahead_perm {d d' : Dispatch} {es : List Event} (hk : Known Lane.current d) (he : Effect d d' es) :
    d.ahead.Perm (es.filterMap Event.act? ++ d'.ahead) := by
  rcases ahead_lane hk he with ⟨hl, hnone⟩ | ⟨i, l, l', hi, hl, hahead⟩
  · simp [ahead, hl, hnone]
  · obtain ⟨rest, hold, hnew⟩ := CommitPool.flatMap_set Lane.ahead hi
    rw [ahead, ahead, hl]
    calc (d.lanes.flatMap Lane.ahead).Perm (l.ahead ++ rest) := hold
      _ = es.filterMap Event.act? ++ (l'.ahead ++ rest) := by rw [hahead, List.append_assoc]
      _ |>.Perm _ := (hnew l').symm.append_left _

section Begin

variable (b : Batch) (p : Partition)

theorem filter_singles (rs : List Record) :
    ((rs.map .single).flatMap Invocation.course).filter (Act.touches p) = p.course .single rs := by
  induction rs with
  | nil => rfl
  | cons r rs ih =>
      have ht : (Invocation.single r).touches p = decide (r.partition = p) := by
        simp [Invocation.touches, Invocation.records]
      simp only [List.map_cons, List.flatMap_cons, List.filter_append, Invocation.filter_course, ih, ht, Partition.course,
        Partition.part]
      by_cases hp : r.partition = p
      · subst hp
        simp [Invocation.course, Invocation.next_single]
      · simp [hp]

theorem ahead_begin_single : (begin .single b).ahead = (((Batch.groups b).flatMap Group.records).map .single).flatMap Invocation.course := by
  simp [ahead, begin, DispatchMode.plan, Lane.ahead, List.flatMap_map, List.map_flatMap, List.flatMap_assoc]

theorem ahead_begin (mode : DispatchMode) : (begin mode b).ahead.filter (Act.touches p) = p.course mode b := by
  cases mode with
  | single => rw [ahead_begin_single, filter_singles, Partition.course, Partition.course, Batch.part_groups]
  | multi =>
      cases b with
      | nil => rfl
      | cons r rs =>
          have ht : (Invocation.batch (r :: rs)).touches p = decide (p.part (r :: rs) ≠ []) := by
            rw [Bool.eq_iff_iff]
            simp [Invocation.touches, Invocation.records, Partition.part]
          have hahead : (begin .multi (r :: rs)).ahead = (Invocation.batch (r :: rs)).course := by
            simp [ahead, begin, DispatchMode.plan, Lane.ahead]
          rw [hahead, Invocation.filter_course, ht, Partition.course]
          by_cases hp : p.part (r :: rs) = [] <;> simp [hp]

end Begin

theorem ahead_done {d : Dispatch} (h : d.done) : d.ahead = [] := by
  have hl : ∀ l ∈ d.lanes, l.running = none ∧ l.waiting = [] := by simpa [done, Lane.done] using h
  exact List.flatMap_eq_nil_iff.mpr (fun l hm => by simp [Lane.ahead, hl l hm])

def run (d : Dispatch) : List Drive → Dispatch × List Event
  | [] => (d, [])
  | a :: as => (((d.step a).1.run as).1, (d.step a).2 ++ ((d.step a).1.run as).2)

theorem run_append (d : Dispatch) (as as' : List Drive) :
    d.run (as ++ as') = (((d.run as).1.run as').1, (d.run as).2 ++ ((d.run as).1.run as').2) := by
  induction as generalizing d with
  | nil => rfl
  | cons a as ih => simp [run, ih]

theorem started_endEvents (d : Dispatch) (job i : Invocation) (o : Outcome) : .started i ∉ d.endEvents job o := by
  simp [endEvents, endReport]

theorem started_known {d d' : Dispatch} {es : List Event} (he : Effect d d' es) {job : Invocation}
    (h : .started job ∈ es) : ∃ qs, job.positions = .ok qs := by
  cases he with
  | quiet | faults => simp at h
  | starts i l job' rest _ _ _ _ _ hknown =>
      obtain rfl : job = job' := by simpa using h
      exact hknown
  | finishes i l job' o => exact absurd h (d.started_endEvents job' job o)

theorem running_plan {mode : DispatchMode} {b : Batch} {l : Lane} (hl : l ∈ mode.plan b) : l.running = none := by
  cases mode with
  | single =>
      obtain ⟨g, -, rfl⟩ := List.mem_map.mp hl
      rfl
  | multi => cases b <;> simp_all [DispatchMode.plan]

theorem Known.set {f : Lane → List Invocation} {d d' : Dispatch} {i : Nat} {l' : Lane} (h : Known f d)
    (hl : d'.lanes = d.lanes.set i l') (hn : ∀ j ∈ f l', ∃ qs, j.positions = .ok qs) : Known f d' := by
  intro m hm
  rw [hl] at hm
  rcases List.mem_or_eq_of_mem_set hm with hm | rfl
  · exact h m hm
  · exact hn

/-- What runs has its positions, and no two lanes share a partition. A fault changes nothing about that. -/
structure Orderly (d : Dispatch) : Prop where
  separate : Separate Lane.unended d.lanes
  known : Known Lane.current d

theorem orderly_begin (mode : DispatchMode) (b : Batch) : Orderly (begin mode b) := by
  refine ⟨separate_begin mode b, fun l hl i hi => ?_⟩
  simp [Lane.current, running_plan hl] at hi

theorem Orderly.effect {d d' : Dispatch} {es : List Event} (h : Orderly d) (he : Effect d d' es) : Orderly d' := by
  refine ⟨h.separate.effect he, ?_⟩
  cases he with
  | quiet hl => exact fun l hm => h.known l (hl ▸ hm)
  | faults i l job rest f _ _ _ hl => exact fun l hm => h.known l (hl ▸ hm)
  | starts i l job rest hi hr hw hl _ hknown => exact h.known.set hl (by simpa [Lane.current] using hknown)
  | finishes i l job o hi hr hl => exact h.known.set hl (by simp [Lane.current])

/-- Through a run, what is seen of a partition is the beginning of what was ahead of it, and all that was ahead is seen
once, or is ahead still. -/
theorem Orderly.run {d : Dispatch} (h : Orderly d) (as : List Drive) :
    Orderly (d.run as).1 ∧
      (∀ p : Partition, d.ahead.filter (Act.touches p) =
        p.acts (d.run as).2 ++ (d.run as).1.ahead.filter (Act.touches p)) ∧
      d.ahead.Perm ((d.run as).2.filterMap Event.act? ++ (d.run as).1.ahead) := by
  induction as generalizing d with
  | nil => exact ⟨h, fun p => rfl, .refl _⟩
  | cons a as ih =>
      have he := d.step_effect a
      obtain ⟨horderly, hacts, hperm⟩ := ih (h.effect he)
      refine ⟨horderly, fun p => ?_, ?_⟩
      · rw [ahead_step h.separate h.known he p, hacts p, Dispatch.run, Partition.acts_append, List.append_assoc]
      · rw [Dispatch.run, List.filterMap_append, List.append_assoc]
        exact (ahead_perm h.known he).trans (hperm.append_left _)

structure Able (d : Dispatch) : Prop where
  faultless : d.fault = none
  separate : Separate Lane.unended d.lanes
  known : Known Lane.unended d

theorem Able.current {d : Dispatch} (h : Able d) : Known Lane.current d :=
  fun l hl i hi => h.known l hl i (List.mem_append_left _ hi)

theorem Able.effect {d d' : Dispatch} {es : List Event} (h : Able d) (he : Effect d d' es) : Able d' := by
  have hsep := h.separate.effect he
  have hset {i : Nat} {l l' : Lane} (hi : d.lanes[i]? = some l) (hl : d'.lanes = d.lanes.set i l')
      (hsub : l'.unended ⊆ l.unended) : Known Lane.unended d' :=
    h.known.set hl (fun j hj => h.known l (List.mem_of_getElem? hi) j (hsub hj))
  cases he with
  | quiet hl hf => exact ⟨hf.trans h.faultless, hsep, fun l hm => h.known l (hl ▸ hm)⟩
  | faults i l job rest f hi hw hj hl =>
      obtain ⟨qs, hqs⟩ := h.known l (List.mem_of_getElem? hi) job (by simp [Lane.unended, hw])
      rw [hj] at hqs
      cases hqs
  | starts i l job rest hi hr hw hl hf =>
      exact ⟨hf.trans h.faultless, hsep, hset hi hl (by simp [Lane.unended, hr, hw])⟩
  | finishes i l job o hi hr hl hf =>
      exact ⟨hf.trans h.faultless, hsep, hset hi hl (by simp [Lane.unended, hr])⟩

theorem able_begin {mode : DispatchMode} {b : Batch} (hb : ∀ r ∈ b, Word.Fits (r.offset + 1)) : Able (begin mode b) := by
  have hok (i : Invocation) (hi : ∀ r ∈ i.records, r ∈ b) : ∃ qs, i.positions = .ok qs :=
    Batch.nextPositions_ok (fun r hr => hb r (hi r hr))
  refine ⟨rfl, separate_begin mode b, fun l hl i hi => ?_⟩
  cases mode with
  | single =>
      obtain ⟨g, hg, rfl⟩ := List.mem_map.mp hl
      obtain ⟨r, hr, rfl⟩ := List.mem_map.mp hi
      have hrb : r ∈ b := (Batch.groups_perm b).mem_iff.mp (List.mem_flatMap.mpr ⟨g, hg, hr⟩)
      exact hok _ (by simpa [Invocation.records] using hrb)
  | multi =>
      cases b with
      | nil => simp [begin, DispatchMode.plan] at hl
      | cons r rs =>
          obtain rfl : l = { waiting := [.batch (r :: rs)] } := by simpa [begin, DispatchMode.plan] using hl
          obtain rfl : i = .batch (r :: rs) := by simpa [Lane.unended] using hi
          exact hok _ (fun _ h => h)

theorem Able.orderly {d : Dispatch} (h : Able d) : Orderly d := ⟨h.separate, h.current⟩

theorem Able.run {d : Dispatch} (h : Able d) (as : List Drive) :
    Able (d.run as).1 ∧
      (∀ p : Partition, d.ahead.filter (Act.touches p) =
        p.acts (d.run as).2 ++ (d.run as).1.ahead.filter (Act.touches p)) ∧
      d.ahead.Perm ((d.run as).2.filterMap Event.act? ++ (d.run as).1.ahead) := by
  refine ⟨?_, (h.orderly.run as).2⟩
  induction as generalizing d with
  | nil => exact h
  | cons a as ih => exact ih (h.effect (d.step_effect a))

end Dispatch

end StreamTrigger
