import StreamTrigger.Dispatch.Worker
import StreamTrigger.Proofs.Grouping

namespace StreamTrigger

def Lane.unended (l : Lane) : List Invocation := l.running.toList ++ l.waiting

def Apart (rs ss : List Record) : Prop := ∀ r ∈ rs, ∀ s ∈ ss, r.partition ≠ s.partition

namespace Apart

variable {rs rs' ss ss' : List Record}

theorem mono (h : Apart rs ss) (hr : rs' ⊆ rs) (hs : ss' ⊆ ss) : Apart rs' ss' :=
  fun r hr' s hs' => h r (hr hr') s (hs hs')

theorem part_nil_or (h : Apart rs ss) (p : Partition) : p.part rs = [] ∨ p.part ss = [] := by
  by_cases hp : ∃ r ∈ rs, r.partition = p
  · obtain ⟨r, hr, rfl⟩ := hp
    exact .inr (Partition.part_eq_nil (fun s hs => (h r hr s hs).symm))
  · exact .inl (Partition.part_eq_nil (fun r hr he => hp ⟨r, hr, he⟩))

end Apart

theorem Invocation.mem_reports {i : Invocation} {positions : List Position} {o : Outcome} {n : WorkTask}
    (h : n ∈ i.reports positions o) :
    (∃ failure, n = i.failed positions failure) ∨ i.completed positions = some n := by
  rw [reports] at h
  split at h
  · exact .inr (Option.mem_toList.mp h)
  · exact .inl ⟨_, List.mem_singleton.mp h⟩

namespace Dispatch

section Todo

-- what is left to do in a lane: what waits there, or what has not ended there
variable (f : Lane → List Invocation)

def recordsIn (l : Lane) : List Record := (f l).flatMap Invocation.records

def todo (ls : List Lane) : List Record := ls.flatMap (recordsIn f)

def Separate (ls : List Lane) : Prop := ls.Pairwise (fun l m => Apart (recordsIn f l) (recordsIn f m))

variable {f}

theorem mem_todo {ls : List Lane} {i : Nat} {l : Lane} (hl : ls[i]? = some l) {r : Record} (hr : r ∈ recordsIn f l) :
    r ∈ todo f ls := List.mem_flatMap.mpr ⟨l, List.mem_of_getElem? hl, hr⟩

theorem todo_set {ls : List Lane} {i : Nat} {l l' : Lane} (hl : ls[i]? = some l) (hf : f l' = f l) :
    todo f (ls.set i l') = todo f ls := by
  induction ls generalizing i with
  | nil => simp at hl
  | cons m ls ih =>
      cases i with
      | zero =>
          simp only [List.getElem?_cons_zero, Option.some.injEq] at hl
          simp [todo, recordsIn, hf, hl]
      | succ i =>
          simp only [List.getElem?_cons_succ] at hl
          simpa [todo] using ih hl

theorem filter_flatMap_set {α : Type} {g : Lane → List α} {P : α → Bool} {ls : List Lane}
    (hs : ls.Pairwise (fun l m => (g l).filter P = [] ∨ (g m).filter P = [])) {i : Nat} {l l' : Lane} {xs : List α}
    (hl : ls[i]? = some l) (hg : g l = xs ++ g l') :
    (ls.flatMap g).filter P = xs.filter P ++ ((ls.set i l').flatMap g).filter P := by
  induction ls generalizing i with
  | nil => simp at hl
  | cons m ls ih =>
      obtain ⟨hm, hs⟩ := List.pairwise_cons.mp hs
      cases i with
      | zero =>
          simp only [List.getElem?_cons_zero, Option.some.injEq] at hl
          subst hl
          simp [hg]
      | succ i =>
          simp only [List.getElem?_cons_succ] at hl
          have ih := ih hs hl
          simp only [List.flatMap_cons, List.set_cons_succ, List.filter_append, ih]
          rcases hm l (List.mem_of_getElem? hl) with hnone | hnone
          · rw [hnone, List.nil_append, List.nil_append]
          · have hx : xs.filter P = [] := by
              rw [hg, List.filter_append] at hnone
              exact (List.append_eq_nil_iff.mp hnone).1
            rw [hx, List.nil_append, List.nil_append]

theorem part_todo_set {ls : List Lane} (hs : Separate f ls) {i : Nat} {l l' : Lane} {job : Invocation}
    (hl : ls[i]? = some l) (hf : f l = job :: f l') (p : Partition) :
    p.part (todo f ls) = p.part job.records ++ p.part (todo f (ls.set i l')) :=
  filter_flatMap_set (hs.imp (fun h => Apart.part_nil_or h p)) hl (by simp [recordsIn, hf])

theorem Separate.set {ls : List Lane} (hs : Separate f ls) {i : Nat} {l l' : Lane} (hl : ls[i]? = some l)
    (hsub : recordsIn f l' ⊆ recordsIn f l) : Separate f (ls.set i l') := by
  induction ls generalizing i with
  | nil => simp at hl
  | cons m ls ih =>
      obtain ⟨hm, hs⟩ := List.pairwise_cons.mp hs
      cases i with
      | zero =>
          simp only [List.getElem?_cons_zero, Option.some.injEq] at hl
          subst hl
          exact List.pairwise_cons.mpr ⟨fun k hk => (hm k hk).mono hsub (List.Subset.refl _), hs⟩
      | succ i =>
          simp only [List.getElem?_cons_succ] at hl
          refine List.pairwise_cons.mpr ⟨fun k hk => ?_, ih hs hl⟩
          rcases List.mem_or_eq_of_mem_set hk with hk | rfl
          · exact hm k hk
          · exact (hm l (List.mem_of_getElem? hl)).mono (List.Subset.refl _) hsub

end Todo

theorem recordsIn_waiting_subset (l : Lane) : recordsIn Lane.waiting l ⊆ recordsIn Lane.unended l := by
  simp [recordsIn, Lane.unended]

theorem Separate.waiting {ls : List Lane} (hs : Separate Lane.unended ls) : Separate Lane.waiting ls :=
  hs.imp (fun h => h.mono (recordsIn_waiting_subset _) (recordsIn_waiting_subset _))

def unstarted (d : Dispatch) : List Record := todo Lane.waiting d.lanes

def unended (d : Dispatch) : List Record := todo Lane.unended d.lanes

theorem todo_done {d : Dispatch} (h : d.done) : d.unstarted = [] ∧ d.unended = [] := by
  have hl : ∀ l ∈ d.lanes, l.running = none ∧ l.waiting = [] := by simpa [done, Lane.done] using h
  constructor
  · exact List.flatMap_eq_nil_iff.mpr (fun l hm => by simp [recordsIn, hl l hm])
  · exact List.flatMap_eq_nil_iff.mpr (fun l hm => by simp [recordsIn, Lane.unended, hl l hm])

section Begin

variable (mode : DispatchMode) (b : Batch)

theorem todo_plan (f : Lane → List Invocation) (hf : ∀ js, f { waiting := js } = js) (p : Partition) :
    p.part (todo f (mode.plan b)) = p.part b := by
  cases mode with
  | single =>
      have hg : ∀ g : Group, recordsIn f { waiting := g.records.map .single } = g.records := by
        simp [recordsIn, hf, List.flatMap_map, Invocation.records]
      simp only [DispatchMode.plan, todo, List.flatMap_map, hg, Batch.part_groups]
  | multi =>
      cases b with
      | nil => rfl
      | cons r rs => simp [DispatchMode.plan, todo, recordsIn, hf, Invocation.records]

theorem part_unstarted_begin (p : Partition) : p.part (begin mode b).unstarted = p.part b :=
  todo_plan mode b Lane.waiting (fun _ => rfl) p

theorem part_unended_begin (p : Partition) : p.part (begin mode b).unended = p.part b :=
  todo_plan mode b Lane.unended (fun _ => rfl) p

theorem separate_begin : Separate Lane.unended (begin mode b).lanes := by
  cases mode with
  | single =>
      have hg : ∀ g : Group, recordsIn Lane.unended { waiting := g.records.map .single } = g.records := by
        simp [recordsIn, Lane.unended, List.flatMap_map, Invocation.records]
      obtain ⟨hown, hdistinct⟩ := Batch.grouped_groups b
      have hd := List.pairwise_map.mp hdistinct
      refine List.pairwise_map.mpr (hd.imp_of_mem (fun {g g'} hm hm' hne => ?_))
      rw [hg, hg]
      intro r hr s hs he
      exact hne (by rw [← hown g hm r hr, ← hown g' hm' s hs, he])
  | multi =>
      cases b with
      | nil => exact List.Pairwise.nil
      | cons r rs => exact List.pairwise_singleton _ _

end Begin

def endReport (d : Dispatch) (job : Invocation) (o : Outcome) : List Event :=
  .ended job o :: .noted (.work (.timed d.mode)) ::
    (job.reports (job.positions.toOption.getD []) o).map (fun n => .noted (.work n))

def endEvents (d : Dispatch) (job : Invocation) (o : Outcome) : List Event :=
  d.endReport job o ++ [.handed (job.positions.toOption.getD [])]

section End

variable (d : Dispatch) (job : Invocation) (o : Outcome)

theorem concluded_endReport : (d.endReport job o).flatMap Event.concluded = [job] := by
  simp [endReport, List.flatMap_map, Event.concluded]

theorem given_endReport : (d.endReport job o).flatMap Event.given = [] := by
  simp [endReport, List.flatMap_map, Event.given]

theorem handed_endReport (ps : List Position) : .handed ps ∉ d.endReport job o := by simp [endReport]

theorem concluded_endEvents : (d.endEvents job o).flatMap Event.concluded = [job] := by
  simp [endEvents, concluded_endReport, Event.concluded]

theorem given_endEvents : (d.endEvents job o).flatMap Event.given = [] := by
  simp [endEvents, given_endReport, Event.given]

theorem handedOver_endEvents : (d.endEvents job o).flatMap Event.handedOver = job.positions.toOption.getD [] := by
  simp [endEvents, endReport, List.flatMap_map, Event.handedOver]

end End

inductive Effect (d : Dispatch) : Dispatch → List Event → Prop
  | quiet (d' : Dispatch) : d'.lanes = d.lanes → d'.fault = d.fault → Effect d d' []
  | faults (d' : Dispatch) (i : Nat) (l : Lane) (job : Invocation) (rest : List Invocation) (f : Fault) :
      d.lanes[i]? = some l → l.waiting = job :: rest → job.positions = .error f → d'.lanes = d.lanes →
      d'.fault = some f → Effect d d' []
  | starts (d' : Dispatch) (i : Nat) (l : Lane) (job : Invocation) (rest : List Invocation) :
      d.lanes[i]? = some l → l.running = none → l.waiting = job :: rest →
      d'.lanes = d.lanes.set i ⟨some job, rest⟩ → d'.fault = d.fault → (∃ qs, job.positions = .ok qs) →
      Effect d d' [.started job]
  | finishes (d' : Dispatch) (i : Nat) (l : Lane) (job : Invocation) (o : Outcome) :
      d.lanes[i]? = some l → l.running = some job → d'.lanes = d.lanes.set i { l with running := none } →
      d'.fault = d.fault → Effect d d' (d.endEvents job o)

theorem Separate.effect {d d' : Dispatch} {es : List Event} (hs : Separate Lane.unended d.lanes) (he : Effect d d' es) :
    Separate Lane.unended d'.lanes := by
  cases he with
  | quiet hl hf => exact hl ▸ hs
  | faults i l job rest f _ _ _ hl => exact hl ▸ hs
  | starts i l job rest hi hr hw hl hf =>
      rw [hl]
      exact hs.set hi (by simp [recordsIn, Lane.unended, hr, hw])
  | finishes i l job o hi hr hl hf =>
      rw [hl]
      exact hs.set hi (by simp [recordsIn, Lane.unended, hr])

theorem start_effect {d : Dispatch} {i : Nat} {l : Lane} (hl : d.lanes[i]? = some l) (hr : l.running = none) :
    Effect d (d.start i l).1 (d.start i l).2 := by
  rw [start]
  split
  · exact .quiet _ rfl rfl
  · next job rest hw =>
      split
      · next f hf => exact .faults _ i l job rest f hl hw hf rfl rfl
      · next qs hqs => exact .starts _ i l job rest hl hr hw rfl rfl ⟨qs, hqs⟩

theorem step_effect (d : Dispatch) (a : Drive) : Effect d (d.step a).1 (d.step a).2 := by
  have hquiet : Effect d d [] := .quiet d rfl rfl
  unfold step
  split
  · next i hfault hfocus =>
      split
      · next l hl =>
          split
          · exact hquiet
          · split
            · exact .quiet _ rfl rfl
            · next hr => exact start_effect hl (by simpa using hr)
      · exact hquiet
  · split
    · exact .quiet _ rfl rfl
    · exact hquiet
  · next i o hfault hfocus =>
      split
      · next l hl =>
          split
          · next job hj => exact .finishes _ i l job o hl hj rfl rfl
          · exact hquiet
      · exact hquiet
  · next i hfault hfocus =>
      split
      · next l hl =>
          split
          · next hr => exact start_effect hl (by simpa using hr)
          · exact hquiet
      · exact hquiet
  · exact hquiet

end Dispatch

end StreamTrigger
