import StreamTrigger.Proofs.Course
import Mathlib.Data.Nat.Pairing

namespace StreamTrigger

theorem Lane.done_congr {l l' : Lane} (h : l'.unended = l.unended) : l'.done = l.done := by
  have hdone (m : Lane) : m.done = m.unended.isEmpty := by cases hr : m.running <;> simp [Lane.done, Lane.unended, hr]
  rw [hdone, hdone, h]

namespace Dispatch

/-- A future is resumed: callbacks end in it one after another, until one is not done yet or no work is left. -/
def resumption (x : Nat × List Outcome) : List Drive :=
  .turn x.1 :: (x.2.flatMap (fun o => [.ended o, .next]) ++ [.pending])

def drives (σ : Nat → Nat × List Outcome) (n : Nat) : List Drive := (List.range n).flatMap (fun k => resumption (σ k))

/-- A future with work left is resumed at some later time, and a callback ends in it. -/
def Fair (d : Dispatch) (σ : Nat → Nat × List Outcome) : Prop :=
  ∀ (n i : Nat) (l : Lane), (d.run (drives σ n)).1.lanes[i]? = some l → l.done = false →
    ∃ m, n ≤ m ∧ (σ m).1 = i ∧ (σ m).2 ≠ []

def load (d : Dispatch) : Nat := (d.lanes.flatMap Lane.unended).length

theorem length_set {α : Type} (f : Lane → List α) {d d' : Dispatch} {i : Nat} {l l' : Lane} (hi : d.lanes[i]? = some l)
    (hl : d'.lanes = d.lanes.set i l') :
    (d'.lanes.flatMap f).length + (f l).length = (d.lanes.flatMap f).length + (f l').length := by
  obtain ⟨rest, hold, hnew⟩ := CommitPool.flatMap_set f hi
  have hold := hold.length_eq
  have hnew := (hnew l').length_eq
  rw [List.length_append] at hold hnew
  rw [hl]
  omega

theorem load_set {d d' : Dispatch} {i : Nat} {l l' : Lane} (hi : d.lanes[i]? = some l) (hl : d'.lanes = d.lanes.set i l') :
    d'.load + l.unended.length = d.load + l'.unended.length := length_set Lane.unended hi hl

theorem load_effect {d d' : Dispatch} {es : List Event} (he : Effect d d' es) :
    d'.load < d.load ∨ d'.lanes.map Lane.unended = d.lanes.map Lane.unended := by
  cases he with
  | quiet hl hf => exact .inr (by rw [hl])
  | faults i l job rest f _ _ _ hl => exact .inr (by rw [hl])
  | starts i l job rest hi hr hw hl hf =>
      have hsame : Lane.unended ⟨some job, rest⟩ = l.unended := by simp [Lane.unended, hr, hw]
      obtain ⟨hlt, rfl⟩ := List.getElem?_eq_some_iff.mp hi
      exact .inr (by rw [hl, List.map_set, hsame, ← List.map_set, List.set_getElem_self])
  | finishes i l job o hi hr hl hf =>
      have := load_set hi hl
      simp only [Lane.unended, List.length_append, hr, Option.toList_some, Option.toList_none, List.length_singleton,
        List.length_nil] at this
      exact .inl (by omega)

theorem load_congr {d d' : Dispatch} (h : d'.lanes.map Lane.unended = d.lanes.map Lane.unended) : d'.load = d.load := by
  rw [load, load, List.flatMap_def, h, List.flatMap_def]

theorem load_run (d : Dispatch) (as : List Drive) :
    (d.run as).1.load < d.load ∨ (d.run as).1.lanes.map Lane.unended = d.lanes.map Lane.unended := by
  induction as generalizing d with
  | nil => exact .inr rfl
  | cons a as ih =>
      rcases load_effect (d.step_effect a) with hlt | hsame
      · exact .inl ((ih _).elim (fun h => Nat.lt_trans h hlt) (fun h => load_congr h ▸ hlt))
      · exact (ih _).imp (fun h => load_congr hsame ▸ h) (fun h => h.trans hsame)

theorem load_run_le (d : Dispatch) (as : List Drive) : (d.run as).1.load ≤ d.load :=
  (load_run d as).elim Nat.le_of_lt (fun h => Nat.le_of_eq (load_congr h))

def Busy (d : Dispatch) (i : Nat) : Prop :=
  d.fault = none ∧ ∃ l job, d.focus = some i ∧ d.lanes[i]? = some l ∧ l.running = some job

variable {d : Dispatch} {i : Nat} {l : Lane}

theorem step_faulted (h : d.fault.isSome) (a : Drive) : d.step a = (d, []) := by
  obtain ⟨f, hf⟩ := Option.isSome_iff_exists.mp h
  simp [Dispatch.step, hf]

theorem run_faulted (h : d.fault.isSome) (as : List Drive) : d.run as = (d, []) := by
  induction as with
  | nil => rfl
  | cons a as ih => simp [Dispatch.run, step_faulted h, ih]

theorem start_cases (h : d.fault = none) (hl : d.lanes[i]? = some l) :
    (d.start i l).1.focus = none ∧ (l.waiting = [] ∨ (d.start i l).1.fault.isSome) ∨ Busy (d.start i l).1 i := by
  rw [Dispatch.start]
  split
  · next hw => exact .inl ⟨rfl, .inl hw⟩
  · next job rest hw =>
      have hlt : i < d.lanes.length := (List.getElem?_eq_some_iff.mp hl).1
      split
      · exact .inl ⟨rfl, .inr rfl⟩
      · exact .inr ⟨h, ⟨some job, rest⟩, job, rfl, by simp [hlt], rfl⟩

theorem turn_cases (h : d.fault = none) (hf : d.focus = none) (hl : d.lanes[i]? = some l) (hd : l.done = false) :
    Busy (d.step (.turn i)).1 i ∨ (d.step (.turn i)).1.focus = none ∧ (d.step (.turn i)).1.fault.isSome := by
  simp only [Dispatch.step, h, hf, hl, hd, Bool.false_eq_true, if_false]
  split
  · next hr =>
      obtain ⟨job, hjob⟩ := Option.isSome_iff_exists.mp hr
      exact .inl ⟨rfl, l, job, rfl, hl, hjob⟩
  · next hr =>
      rcases start_cases h hl with ⟨hfocus, hw | hfault⟩ | hb
      · simp_all [Lane.done]
      · exact .inr ⟨hfocus, hfault⟩
      · exact .inl hb

theorem Able.turn (h : Able d) (hf : d.focus = none) (hl : d.lanes[i]? = some l) (hd : l.done = false) :
    Busy (d.step (.turn i)).1 i :=
  (turn_cases h.faultless hf hl hd).resolve_right (fun ⟨_, hfault⟩ => by
    simp [(h.effect (d.step_effect (.turn i))).faultless] at hfault)

theorem turn_none (hf : d.focus = none) (hl : ∀ l, d.lanes[i]? = some l → l.done) : (d.step (.turn i)).1 = d := by
  cases h : d.fault with
  | some f => simp [Dispatch.step, h]
  | none =>
      cases hi : d.lanes[i]? with
      | none => simp [Dispatch.step, h, hf, hi]
      | some l => simp [Dispatch.step, h, hf, hi, hl l hi]

theorem step_unfocused (hf : d.focus = none) {a : Drive} (ha : ∀ j, a ≠ .turn j) : d.step a = (d, []) := by
  cases a with
  | turn j => exact absurd rfl (ha j)
  | pending | ended o | next => cases h : d.fault <;> simp [Dispatch.step, h, hf]

theorem step_next (h : d.fault = none) (hf : d.focus = some i) (hl : d.lanes[i]? = some l) (hr : l.running = none) :
    d.step .next = d.start i l := by
  simp [Dispatch.step, h, hf, hl, hr]

def Poised (d : Dispatch) : Prop := d.focus = none ∨ ∃ i, Busy d i

theorem step_ended (hb : Busy d i) (o : Outcome) :
    ∃ l : Lane, d.lanes[i]? = some l ∧ l.running.isSome ∧ (d.step (.ended o)).1 =
      { d with lanes := d.lanes.set i { l with running := none }, focus := if l.waiting.isEmpty then none else some i } := by
  obtain ⟨h, l, job, hf, hl, hr⟩ := hb
  exact ⟨l, hl, by simp [hr], by simp [Dispatch.step, h, hf, hl, hr, finish]⟩

theorem ended_load (hb : Busy d i) (o : Outcome) : (d.step (.ended o)).1.load < d.load := by
  obtain ⟨l, hl, hr, hstep⟩ := step_ended hb o
  obtain ⟨job, hjob⟩ := Option.isSome_iff_exists.mp hr
  have hlanes : (d.step (.ended o)).1.lanes = d.lanes.set i { l with running := none } := by rw [hstep]
  have := load_set hl hlanes
  simp only [Lane.unended, List.length_append, hjob, Option.toList_some, Option.toList_none, List.length_singleton,
    List.length_nil] at this
  omega

namespace Poised

theorem outcome (hp : Poised d) (o : Outcome) : Poised (d.run [.ended o, .next]).1 := by
  rcases hp with hf | ⟨i, hb⟩
  · have hended := step_unfocused hf (a := .ended o) (by simp)
    have hnext := step_unfocused hf (a := .next) (by simp)
    exact .inl (by simp [Dispatch.run, hended, hnext, hf])
  · obtain ⟨l, hl, -, hstep⟩ := step_ended hb o
    have hlt : i < d.lanes.length := (List.getElem?_eq_some_iff.mp hl).1
    have hlane : (d.step (.ended o)).1.lanes[i]? = some { l with running := none } := by simp [hstep, hlt]
    have hfault : (d.step (.ended o)).1.fault = none := by simp [hstep, hb.1]
    cases hw : l.waiting with
    | nil =>
        have hf : (d.step (.ended o)).1.focus = none := by simp [hstep, hw]
        have hnext := step_unfocused hf (a := .next) (by simp)
        exact .inl (by simp [Dispatch.run, hnext, hf])
    | cons job rest =>
        have hf : (d.step (.ended o)).1.focus = some i := by simp [hstep, hw]
        have hnext := step_next hfault hf hlane rfl
        simp only [Dispatch.run, hnext]
        exact (start_cases hfault hlane).imp And.left (fun hb => ⟨i, hb⟩)

theorem outcomes (hp : Poised d) (os : List Outcome) : Poised (d.run (os.flatMap (fun o => [.ended o, .next]))).1 := by
  induction os generalizing d with
  | nil => exact hp
  | cons o os ih =>
      rw [List.flatMap_cons, run_append]
      exact ih (hp.outcome o)

theorem pending (hp : Poised d) : (d.step .pending).1.focus = none := by
  rcases hp with hf | ⟨i, h, l, job, hf, hl, hr⟩
  · rw [step_unfocused hf (by simp)]
    exact hf
  · simp [Dispatch.step, h, hf, running?, hl, hr]

end Poised

theorem resume_cases (hf : d.focus = none) (x : Nat × List Outcome) :
    (d.run (resumption x)).1.focus = none ∧
      (∀ l, d.lanes[x.1]? = some l → l.done = false → x.2 ≠ [] →
        (d.run (resumption x)).1.load < d.load ∨ (d.run (resumption x)).1.fault.isSome) := by
  obtain ⟨i, os⟩ := x
  cases h : d.fault with
  | some f =>
      rw [run_faulted (by simp [h])]
      exact ⟨hf, fun _ _ _ _ => .inr (by simp [h])⟩
  | none =>
      have hpoised : Poised (d.step (.turn i)).1 := by
        by_cases hl : ∃ l, d.lanes[i]? = some l ∧ l.done = false
        · obtain ⟨l, hl, hd⟩ := hl
          exact (turn_cases h hf hl hd).elim (fun hb => .inr ⟨i, hb⟩) (fun ⟨hfocus, _⟩ => .inl hfocus)
        · rw [turn_none hf (fun l hl' => by by_contra hd; exact hl ⟨l, hl', by simpa using hd⟩)]
          exact .inl hf
      have hrun : (d.run (resumption (i, os))).1 =
          (((d.step (.turn i)).1.run (os.flatMap (fun o => [.ended o, .next]))).1.step .pending).1 := by
        simp [resumption, Dispatch.run, run_append]
      refine ⟨?_, fun l hl hd hos => ?_⟩
      · rw [hrun]
        exact (hpoised.outcomes os).pending
      · cases os with
        | nil => exact absurd rfl hos
        | cons o os =>
            have hsplit : (d.run (resumption (i, o :: os))).1 = (((d.step (.turn i)).1.run
                (.ended o :: .next :: (os.flatMap (fun o => [.ended o, .next]) ++ [.pending])))).1 := by
              simp [resumption, Dispatch.run]
            rw [hsplit]
            rcases turn_cases h hf hl hd with hb | ⟨-, hfault⟩
            · have hturn : (d.step (.turn i)).1.load ≤ d.load := load_run_le d [.turn i]
              have hended := ended_load hb o
              have hrest := load_run_le ((d.step (.turn i)).1.step (.ended o)).1
                (.next :: (os.flatMap (fun o => [.ended o, .next]) ++ [.pending]))
              exact .inl (Nat.lt_of_le_of_lt hrest (Nat.lt_of_lt_of_le hended hturn))
            · exact .inr (by rw [run_faulted hfault]; exact hfault)

section Drives

variable (σ : Nat → Nat × List Outcome)

theorem drives_prefix {n m : Nat} (hnm : n ≤ m) : ∃ as, drives σ m = drives σ n ++ as := by
  obtain ⟨k, rfl⟩ := Nat.exists_eq_add_of_le hnm
  exact ⟨_, by rw [drives, List.range_add, List.flatMap_append, drives]⟩

theorem run_drives_succ (d : Dispatch) (n : Nat) :
    (d.run (drives σ (n + 1))).1 = ((d.run (drives σ n)).1.run (resumption (σ n))).1 := by
  simp [drives, List.range_succ, run_append]

theorem focus_drives (hf : d.focus = none) (n : Nat) : (d.run (drives σ n)).1.focus = none := by
  induction n with
  | zero => exact hf
  | succ n ih =>
      rw [run_drives_succ]
      exact (resume_cases ih (σ n)).1

/-- While work is left, less of it is left at some later time, or there is a fault. -/
theorem Fair.progress {σ : Nat → Nat × List Outcome} (hfair : Fair d σ) (hf : d.focus = none) (n : Nat)
    (hn : (d.run (drives σ n)).1.done = false) :
    ∃ m, (d.run (drives σ m)).1.load < (d.run (drives σ n)).1.load ∨ (d.run (drives σ m)).1.fault.isSome := by
  obtain ⟨l, hl, hd⟩ : ∃ l ∈ (d.run (drives σ n)).1.lanes, l.done = false := by simpa [done] using hn
  obtain ⟨i, hi⟩ := List.getElem?_of_mem hl
  obtain ⟨m, hnm, rfl, hends⟩ := hfair n i l hi hd
  obtain ⟨as, has⟩ := drives_prefix σ hnm
  have hrun : (d.run (drives σ m)).1 = ((d.run (drives σ n)).1.run as).1 := by rw [has, run_append]
  rcases load_run (d.run (drives σ n)).1 as with hlt | hsame
  · exact ⟨m, .inl (hrun ▸ hlt)⟩
  · -- the lane has as much left to do as before when its turn comes
    rw [← hrun] at hsame
    have hlane : ((d.run (drives σ m)).1.lanes.map Lane.unended)[(σ m).1]? = some l.unended := by
      simp [hsame, hi]
    obtain ⟨l', hl', hleft⟩ := by simpa [List.getElem?_map] using hlane
    have hd' : l'.done = false := by rw [← hd, Lane.done_congr hleft]
    refine ⟨m + 1, ?_⟩
    rw [run_drives_succ, ← load_congr hsame]
    exact (resume_cases (focus_drives σ hf m) (σ m)).2 l' hl' hd' hends

theorem Fair.finishes_or_faults {σ : Nat → Nat × List Outcome} (hfair : Fair d σ) (hf : d.focus = none) :
    ∃ n, (d.run (drives σ n)).1.done ∨ (d.run (drives σ n)).1.fault.isSome := by
  -- the load cannot fall for ever
  suffices hleft : ∀ k n, (d.run (drives σ n)).1.load = k →
      ∃ m, (d.run (drives σ m)).1.done ∨ (d.run (drives σ m)).1.fault.isSome from hleft _ 0 rfl
  intro k
  induction k using Nat.strong_induction_on with
  | _ k ih =>
      intro n hk
      cases hn : (d.run (drives σ n)).1.done with
      | true => exact ⟨n, .inl hn⟩
      | false =>
          obtain ⟨m, hm | hfault⟩ := hfair.progress hf n hn
          · exact ih _ (hk ▸ hm) m rfl
          · exact ⟨m, .inr hfault⟩

theorem Able.finishes {σ : Nat → Nat × List Outcome} (h : Able d) (hf : d.focus = none) (hfair : Fair d σ) :
    ∃ n, (d.run (Dispatch.drives σ n)).1.done := by
  obtain ⟨n, hn | hfault⟩ := hfair.finishes_or_faults hf
  · exact ⟨n, hn⟩
  · simp [(h.run _).1.faultless] at hfault

end Drives

/-- Record by record, each partition is seen as the start, the end and the commit of its records in turn, whatever the
order between the partitions; a dispatch that is over has left nothing out, and it is over at some time if every
callback comes to its end. -/
theorem single_runs_its_course {b : Batch} (hb : ∀ r ∈ b, Word.least ≤ r.offset ∧ r.offset < Word.greatest) :
    (∀ as : List Drive,
      ((begin .single b).run as).1.fault = none ∧
      (∀ p : Partition, p.acts ((begin .single b).run as).2 <+: p.course .single b) ∧
      (((begin .single b).run as).1.done →
        (∀ p : Partition, p.acts ((begin .single b).run as).2 = p.course .single b) ∧
        (((begin .single b).run as).2.filterMap Event.act?).Perm (b.flatMap (fun r =>
          [.starts (.single r), .ends (.single r), .commits [⟨r.partition, r.offset + 1⟩]])))) ∧
    ∀ σ : Nat → Nat × List Outcome, Fair (begin .single b) σ → ∃ n, ((begin .single b).run (drives σ n)).1.done := by
  have hable : Able (begin .single b) := able_begin (fun r hr => by
    obtain ⟨hleast, hgreatest⟩ := hb r hr
    exact ⟨by omega, hgreatest⟩)
  refine ⟨fun as => ?_, fun σ hfair => hable.finishes rfl hfair⟩
  obtain ⟨hrun, hacts, hperm⟩ := hable.run as
  simp only [ahead_begin] at hacts
  refine ⟨hrun.faultless, fun p => ⟨_, (hacts p).symm⟩, fun hd => ⟨fun p => ?_, ?_⟩⟩
  · rw [hacts p, ahead_done hd, List.filter_nil, List.append_nil]
  · rw [ahead_done hd, List.append_nil, ahead_begin_single] at hperm
    refine hperm.symm.trans (((Batch.groups_perm b).map Invocation.single).flatMap_right _ |>.trans (.of_eq ?_))
    simp [List.flatMap_map, Invocation.course, Invocation.next_single]

def twoPartitions : Batch := [{ partition := ⟨"events", 1⟩, offset := 4 }, { partition := ⟨"events", 0⟩, offset := 7 },
  { partition := ⟨"events", 1⟩, offset := 5 }]

def everyLane (n : Nat) : Nat × List Outcome := (n.unpair.1, [.ok])

theorem fair_everyLane (d : Dispatch) : Fair d everyLane :=
  fun n i _ _ _ => ⟨Nat.pair i n, Nat.right_le_pair i n, by simp [everyLane], by simp [everyLane]⟩

theorem single_runs_its_course_twice : (∀ r ∈ twoPartitions, Word.least ≤ r.offset ∧ r.offset < Word.greatest) ∧
    Fair (begin .single twoPartitions) everyLane ∧
    ∃ n, ((begin .single twoPartitions).run (drives everyLane n)).1.done ∧
      Partition.acts ⟨"events", 1⟩ ((begin .single twoPartitions).run (drives everyLane n)).2 =
        [.starts (.single { partition := ⟨"events", 1⟩, offset := 4 }), .ends (.single { partition := ⟨"events", 1⟩, offset := 4 }),
          .commits [⟨⟨"events", 1⟩, 5⟩],
          .starts (.single { partition := ⟨"events", 1⟩, offset := 5 }), .ends (.single { partition := ⟨"events", 1⟩, offset := 5 }),
          .commits [⟨⟨"events", 1⟩, 6⟩]] := by
  have hb : ∀ r ∈ twoPartitions, Word.least ≤ r.offset ∧ r.offset < Word.greatest := by decide
  have hfair : Fair (begin .single twoPartitions) everyLane := fair_everyLane _
  obtain ⟨hacts, hdone⟩ := single_runs_its_course hb
  obtain ⟨n, hn⟩ := hdone everyLane hfair
  exact ⟨hb, hfair, n, hn, ((hacts _).2.2 hn).1 _⟩

end Dispatch

end StreamTrigger
