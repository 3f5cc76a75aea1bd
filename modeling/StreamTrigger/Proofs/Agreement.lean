import StreamTrigger.Proofs.Aborting
import StreamTrigger.Proofs.CommitSeries
import StreamTrigger.Proofs.Membership
import StreamTrigger.Proofs.PartitionOrder
import StreamTrigger.Proofs.Resuming
import StreamTrigger.Rehearsal.World

namespace StreamTrigger

namespace Tracker

variable {t t' : Tracker}

theorem mem_snapshot {q : Position} : q ∈ t.snapshot ↔ t.committed? q.partition = some q.offset := by
  rw [snapshot, List.mem_mergeSort, List.mem_map, committed?, ← Table.mem_entries]
  constructor
  · rintro ⟨e, he, rfl⟩
    exact he
  · exact fun he => ⟨_, he, rfl⟩

theorem nodup_snapshot (t : Tracker) : (t.snapshot.map Position.partition).Nodup := by
  refine ((List.mergeSort_perm _ _).map Position.partition).nodup_iff.mpr ?_
  rw [List.map_map]
  exact t.last.nodup

theorem snapshot_congr (h : ∀ p, t.committed? p = t'.committed? p) : t.snapshot = t'.snapshot :=
  Position.eq_of_sorted (Position.sorted_mergeSort _) (Position.sorted_mergeSort _) t.nodup_snapshot t'.nodup_snapshot
    (fun q => by rw [mem_snapshot, mem_snapshot, h])

end Tracker

/-- Every position lies behind a record, and behind every record lies a position, of its partition each. -/
structure Covers (qs : List Position) (rs : List Record) : Prop where
  behind : ∀ q ∈ qs, ∃ r ∈ rs, r.partition = q.partition ∧ q.offset = r.offset + 1
  reached : ∀ r ∈ rs, ∃ q ∈ qs, q.partition = r.partition ∧ r.offset < q.offset

namespace Covers

variable {qs qs' : List Position} {rs rs' : List Record}

theorem congr (h : Covers qs rs) (hqs : ∀ q, q ∈ qs' ↔ q ∈ qs) (hrs : ∀ r, r ∈ rs' ↔ r ∈ rs) : Covers qs' rs' := by
  constructor
  · simpa only [hqs, hrs] using h.behind
  · simpa only [hqs, hrs] using h.reached

theorem flatMap {α : Type} {xs : List α} {f : α → List Position} {g : α → List Record} (h : ∀ x ∈ xs, Covers (f x) (g x)) :
    Covers (xs.flatMap f) (xs.flatMap g) := by
  constructor
  · intro q hq
    obtain ⟨x, hx, hq⟩ := List.mem_flatMap.mp hq
    obtain ⟨r, hr, hrq⟩ := (h x hx).behind q hq
    exact ⟨r, List.mem_flatMap.mpr ⟨x, hx, hr⟩, hrq⟩
  · intro r hr
    obtain ⟨x, hx, hr⟩ := List.mem_flatMap.mp hr
    obtain ⟨q, hq, hqr⟩ := (h x hx).reached r hr
    exact ⟨q, List.mem_flatMap.mpr ⟨x, hx, hq⟩, hqr⟩

theorem touched (h : Covers qs rs) (p : Partition) : (∃ q ∈ qs, q.partition = p) ↔ ∃ r ∈ rs, r.partition = p := by
  constructor
  · rintro ⟨q, hq, rfl⟩
    obtain ⟨r, hr, hp, -⟩ := h.behind q hq
    exact ⟨r, hr, hp⟩
  · rintro ⟨r, hr, rfl⟩
    obtain ⟨q, hq, hp, -⟩ := h.reached r hr
    exact ⟨q, hq, hp⟩

theorem le (h : Covers qs rs) (h' : Covers qs' rs) {p : Partition} {m : Int} (hm : ∀ o ∈ p.offsets qs, o ≤ m) :
    ∀ o ∈ p.offsets qs', o ≤ m := by
  intro o ho
  obtain ⟨q', hq', hp', rfl⟩ := Partition.mem_offsets.mp ho
  obtain ⟨r, hr, hpr, hbehind⟩ := h'.behind q' hq'
  obtain ⟨q, hq, hpq, hreached⟩ := h.reached r hr
  have hqm := hm q.offset (Partition.mem_offsets.mpr ⟨q, hq, hpq.trans (hpr.trans hp'), rfl⟩)
  omega

theorem max_eq (h : Covers qs rs) (h' : Covers qs' rs) (floor : Int) (p : Partition) :
    (p.offsets qs).foldl max floor = (p.offsets qs').foldl max floor := by
  refine eq_of_forall_ge_iff (fun m => ?_)
  rw [foldl_max_le, foldl_max_le]
  exact and_congr_right (fun _ => ⟨h.le h', h'.le h⟩)

theorem max_highest (h : Covers qs rs) {p : Partition} {o : Int} (ho : Batch.IsHighest rs p o) (floor : Int) :
    (p.offsets qs).foldl max floor = max floor (o + 1) := by
  obtain ⟨⟨r, hr, rfl, rfl⟩, hmax⟩ := ho
  refine eq_of_forall_ge_iff (fun m => ?_)
  rw [foldl_max_le, Int.max_le]
  refine and_congr_right (fun _ => ⟨fun hm => ?_, fun hm x hx => ?_⟩)
  · obtain ⟨q, hq, hp, hreached⟩ := h.reached r hr
    have := hm q.offset (Partition.mem_offsets.mpr ⟨q, hq, hp, rfl⟩)
    omega
  · obtain ⟨q, hq, hp, rfl⟩ := Partition.mem_offsets.mp hx
    obtain ⟨r', hr', hp', hbehind⟩ := h.behind q hq
    have := hmax r' hr' (hp'.trans hp)
    omega

theorem last (h : Covers qs rs) (h' : Covers qs' rs) (t : Tracker) (p : Partition) :
    (p.offsets (t.advance qs).claimed).getLast? = (p.offsets (t.advance qs').claimed).getLast? := by
  rw [t.offsets_claimed, t.offsets_claimed, last_maximaAbove, last_maximaAbove, h.max_eq h']

theorem snapshot (h : Covers qs rs) (h' : Covers qs' rs) (t : Tracker) :
    (t.advance qs).tracker.snapshot = (t.advance qs').tracker.snapshot := by
  refine Tracker.snapshot_congr (fun p => ?_)
  simp only [Tracker.committed_advance, Tracker.mark_eq_max, h.touched, h'.touched, h.max_eq h']

theorem committed (h : Covers qs rs) {p : Partition} {o : Int} (ho : Batch.IsHighest rs p o) (t : Tracker) :
    (t.advance qs).tracker.committed? p = some (max (t.mark p) (o + 1)) := by
  obtain ⟨r, hr, hp, -⟩ := ho.1
  rw [t.committed_advance, if_pos ((h.touched p).mpr ⟨r, hr, hp⟩), t.mark_eq_max, h.max_highest ho]

end Covers

namespace Invocation

theorem covers_next (i : Invocation) : Covers i.next i.records := by
  have hnext {q : Position} (hq : q ∈ i.next) : Batch.IsNext i.records q := by
    obtain ⟨⟨p, o⟩, he, rfl⟩ := List.mem_map.mp hq
    exact ⟨o, (Batch.highest_spec i.records p).2 o (Batch.mem_ranked.mp he), rfl⟩
  constructor
  · intro q hq
    obtain ⟨o, ⟨⟨r, hr, hp, ho⟩, -⟩, hqo⟩ := hnext hq
    exact ⟨r, hr, hp, by omega⟩
  · intro r hr
    obtain ⟨q, hq, hp⟩ := i.mem_next.mpr ⟨r, hr, rfl⟩
    obtain ⟨o, ⟨-, hmax⟩, hqo⟩ := hnext hq
    have := hmax r hr hp.symm
    exact ⟨q, hq, hp, by omega⟩

end Invocation

def Act.call? : Act → Option (List Position)
  | commits qs => some qs
  | _ => none

theorem Event.calls_acts (es : List Event) : es.filterMap call? = (es.filterMap act?).filterMap Act.call? := by
  rw [List.filterMap_filterMap]
  congr 1
  funext e
  cases e <;> rfl

def DispatchMode.invocations (mode : DispatchMode) (b : Batch) : List Invocation := (mode.plan b).flatMap Lane.waiting

namespace Dispatch

variable (mode : DispatchMode) (b : Batch)

theorem ahead_begin_invocations : (begin mode b).ahead = (mode.invocations b).flatMap Invocation.course := by
  have hlane (l : Lane) (hl : l ∈ mode.plan b) : l.ahead = l.waiting.flatMap Invocation.course := by
    simp [Lane.ahead, running_plan hl]
  rw [DispatchMode.invocations, List.flatMap_assoc]
  exact List.flatMap_congr hlane

theorem records_invocations : ((mode.invocations b).flatMap Invocation.records).Perm b := by
  have hunstarted : (begin mode b).unstarted = (mode.invocations b).flatMap Invocation.records :=
    List.flatMap_assoc.symm
  exact hunstarted ▸ Partition.perm_of_part (part_unstarted_begin mode b)

theorem covers_done {mode : DispatchMode} {b : Batch} (hb : ∀ r ∈ b, Word.Fits (r.offset + 1)) {as : List Drive}
    (hd : ((begin mode b).run as).1.done) :
    Covers (((begin mode b).run as).2.filterMap Event.call?).flatten b := by
  obtain ⟨-, -, hperm⟩ := (able_begin hb).run as
  rw [ahead_done hd, List.append_nil, ahead_begin_invocations] at hperm
  have hcalls : (((begin mode b).run as).2.filterMap Event.call?).Perm ((mode.invocations b).map Invocation.next) := by
    have hcourse (is : List Invocation) : (is.flatMap Invocation.course).filterMap Act.call? = is.map Invocation.next := by
      induction is with
      | nil => rfl
      | cons i is ih => simp [Invocation.course, List.filterMap_cons, Act.call?, ih]
    rw [Event.calls_acts, ← hcourse]
    exact (hperm.filterMap Act.call?).symm
  refine (Covers.flatMap (fun i _ => i.covers_next)).congr (fun q => ?_) (fun r => (records_invocations mode b).mem_iff.symm)
  rw [hcalls.flatten.mem_iff, List.flatMap_def]

end Dispatch

/-- The batches, each with the turns in which it is dispatched, until all of its callbacks have ended. -/
def DispatchMode.Completes (mode : DispatchMode) (bs : List Batch) (xs : List (Batch × List Drive)) : Prop :=
  xs.map Prod.fst = bs ∧ ∀ x ∈ xs, ((Dispatch.begin mode x.1).run x.2).1.done

def DispatchMode.calls (mode : DispatchMode) (xs : List (Batch × List Drive)) : List (List Position) :=
  xs.flatMap (fun x => ((Dispatch.begin mode x.1).run x.2).2.filterMap Event.call?)

theorem DispatchMode.Completes.covers {mode : DispatchMode} {bs : List Batch} {xs : List (Batch × List Drive)}
    (h : mode.Completes bs xs) (hb : ∀ b ∈ bs, ∀ r ∈ b, Word.Fits (r.offset + 1)) :
    Covers (mode.calls xs).flatten bs.flatten := by
  obtain ⟨rfl, hdone⟩ := h
  have hx (x : Batch × List Drive) (hx : x ∈ xs) :
      Covers (((Dispatch.begin mode x.1).run x.2).2.filterMap Event.call?).flatten x.1 :=
    Dispatch.covers_done (hb x.1 (List.mem_map_of_mem hx)) (hdone x hx)
  refine (Covers.flatMap hx).congr (fun q => ?_) (fun r => ?_)
  · rw [calls, List.flatMap_def, List.flatMap_def, List.flatten_flatten, List.map_map]
    rfl
  · rw [← List.flatMap_def]

namespace World

variable {β : Type} [Broker β]

/-- A dispatch is driven on; what a step hands over is committed before the next step. -/
def drive (w : World β) (d : Dispatch) : List Drive → World β
  | [] => w
  | a :: as => (w.takeAll (d.step a).2).drive (d.step a).1 as

def process (w : World β) (mode : DispatchMode) : List (Batch × List Drive) → World β
  | [] => w
  | x :: xs => (w.drive (Dispatch.begin mode x.1) x.2).process mode xs

structure Commits (m : CommitMode) (w : World β) (pss : List (List Position)) (w' : World β) : Prop where
  strategy : w'.commits = some m
  tracker : w'.tracker = (m.series w.tracker w.broker pss).tracker
  broker : w'.broker = (m.series w.tracker w.broker pss).broker

namespace Commits

variable {m : CommitMode} {w w' w'' : World β} {pss pss' : List (List Position)}

theorem refl (h : w.commits = some m) : Commits m w [] w := ⟨h, rfl, rfl⟩

theorem trans (h : Commits m w pss w') (h' : Commits m w' pss' w'') : Commits m w (pss ++ pss') w'' := by
  obtain ⟨htracker, hbroker⟩ := m.series_append w.tracker w.broker pss pss'
  refine ⟨h'.strategy, ?_, ?_⟩
  · rw [h'.tracker, htracker, h.tracker, h.broker]
  · rw [h'.broker, hbroker, h.tracker, h.broker]

end Commits

omit [Broker β] in
theorem foldl_add (w : World β) (es : List Event) :
    (es.foldl add w).commits = w.commits ∧ (es.foldl add w).tracker = w.tracker ∧ (es.foldl add w).broker = w.broker := by
  induction es generalizing w with
  | nil => exact ⟨rfl, rfl, rfl⟩
  | cons e es ih => exact ih (w.add e)

variable {m : CommitMode} {w : World β}

theorem commits_take (h : w.commits = some m) (e : Event) : Commits m w e.call?.toList (w.take e) := by
  cases e with
  | handed ps =>
      obtain ⟨hcommits, htracker, hbroker⟩ := foldl_add
        { w.add (.handed ps) with
          tracker := (m.commit w.tracker w.broker ps).tracker
          broker := (m.commit w.tracker w.broker ps).broker }
        (m.commit w.tracker w.broker ps).events
      have htake : w.take (.handed ps) = (m.commit w.tracker w.broker ps).events.foldl add
          { w.add (.handed ps) with
            tracker := (m.commit w.tracker w.broker ps).tracker
            broker := (m.commit w.tracker w.broker ps).broker } := by
        simp only [take, show (w.add (.handed ps)).commits = some m from h]
        rfl
      rw [htake]
      exact ⟨hcommits.trans h, htracker, hbroker⟩
  | started i | ended i o | stored q | committed qs | noted n => exact ⟨h, rfl, rfl⟩

theorem commits_takeAll (h : w.commits = some m) (es : List Event) : Commits m w (es.filterMap Event.call?) (w.takeAll es) := by
  induction es generalizing w with
  | nil => exact .refl h
  | cons e es ih =>
      have htake := commits_take h e
      have hsplit : (e :: es).filterMap Event.call? = e.call?.toList ++ es.filterMap Event.call? := by
        rw [List.filterMap_cons]
        cases e.call? <;> rfl
      rw [hsplit]
      exact htake.trans (ih htake.strategy)

theorem commits_drive (h : w.commits = some m) (d : Dispatch) (as : List Drive) :
    Commits m w ((d.run as).2.filterMap Event.call?) (w.drive d as) := by
  induction as generalizing w d with
  | nil => exact .refl h
  | cons a as ih =>
      have hstep := commits_takeAll h (d.step a).2
      rw [Dispatch.run, List.filterMap_append]
      exact hstep.trans (ih hstep.strategy (d.step a).1)

theorem commits_process (h : w.commits = some m) (mode : DispatchMode) (xs : List (Batch × List Drive)) :
    Commits m w (mode.calls xs) (w.process mode xs) := by
  induction xs generalizing w with
  | nil => exact .refl h
  | cons x xs ih =>
      have hdrive := commits_drive h (Dispatch.begin mode x.1) x.2
      rw [DispatchMode.calls, List.flatMap_cons]
      exact hdrive.trans (ih hdrive.strategy)

end World

def latest (n : Int) (qs : List Position) : Option Int :=
  ((qs.filter (fun q => q.partition.number = n)).map Position.offset).getLast?

section Latest

variable {n : Int} {qs qs' : List Position} {rs : List Record}

theorem latest_append : latest n (qs ++ qs') = (latest n qs').or (latest n qs) := by
  rw [latest, List.filter_append, List.map_append, List.getLast?_append, latest, latest]

theorem latest_singleton (q : Position) : latest n [q] = if q.partition.number = n then some q.offset else none := by
  by_cases h : q.partition.number = n <;> simp [latest, h]

theorem latest_none (h : ∀ q ∈ qs, q.partition.number ≠ n) : latest n qs = none := by
  rw [latest, List.filter_eq_nil_iff.mpr (by simpa using h)]
  rfl

theorem latest_eq {p : Partition} (hp : p.number = n) (h : ∀ q ∈ qs, q.partition.number = n → q.partition = p) :
    latest n qs = (p.offsets qs).getLast? := by
  rw [latest, Partition.offsets]
  congr 2
  refine List.filter_congr (fun q hq => ?_)
  rw [decide_eq_decide]
  exact ⟨h q hq, fun he => he ▸ hp⟩

theorem Covers.latest (h : Covers qs rs) (h' : Covers qs' rs) (t : Tracker)
    (hn : ∀ r ∈ rs, ∀ r' ∈ rs, r.partition.number = n → r'.partition.number = n → r.partition = r'.partition) :
    latest n (t.advance qs).claimed = latest n (t.advance qs').claimed := by
  by_cases hr : ∃ r ∈ rs, r.partition.number = n
  · obtain ⟨r, hr, hrn⟩ := hr
    have hone {xs : List Position} (hx : Covers xs rs) :
        StreamTrigger.latest n (t.advance xs).claimed = (r.partition.offsets (t.advance xs).claimed).getLast? := by
      refine latest_eq hrn (fun q hq hqn => ?_)
      obtain ⟨r', hr', hp, -⟩ := hx.behind q (Tracker.mem_of_claimed hq)
      rw [← hp]
      exact hn r' hr' r hr (hp ▸ hqn) hrn
    rw [hone h, hone h', h.last h']
  · have hnone {xs : List Position} (hx : Covers xs rs) : StreamTrigger.latest n (t.advance xs).claimed = none := by
      refine latest_none (fun q hq hqn => hr ?_)
      obtain ⟨r', hr', hp, -⟩ := hx.behind q (Tracker.mem_of_claimed hq)
      exact ⟨r', hr', hp ▸ hqn⟩
    rw [hnone h, hnone h']

end Latest

theorem Cluster.committed_setAll_latest (c : Cluster) (group : String) (qs : List Position) (n : Int) :
    (c.setAll group (qs.map (fun q => (q.partition.number, q.offset)))).committed? group n =
      (latest n qs).or (c.committed? group n) := by
  induction qs generalizing c with
  | nil => rfl
  | cons q qs ih =>
      rw [show latest n (q :: qs) = latest n ([q] ++ qs) from rfl, latest_append, latest_singleton, Option.or_assoc]
      refine (ih _).trans ?_
      rw [committed_setCommitted]
      by_cases hq : q.partition.number = n <;> simp [hq]

namespace Connection

structure Given (m : CommitMode) (c : Connection) (qs : List Position) (c' : Connection) : Prop where
  group : c'.member.group = c.member.group
  commits : c'.member.trouble.commits = c.member.trouble.commits
  stored : ∀ n, c'.member.stored.get? n = match m with
    | .buffered => (latest n qs).or (c.member.stored.get? n)
    | .immediate => c.member.stored.get? n
  committed : ∀ n, c'.cluster.committed? c.member.group n = match m with
    | .buffered => c.cluster.committed? c.member.group n
    | .immediate => (latest n qs).or (c.cluster.committed? c.member.group n)

variable {m m' : CommitMode} {c c' c'' : Connection} {qs qs' : List Position}

namespace Given

theorem refl : Given m c [] c := ⟨rfl, rfl, fun n => by cases m <;> rfl, fun n => by cases m <;> rfl⟩

theorem trans (h : Given m c qs c') (h' : Given m c' qs' c'') : Given m c (qs ++ qs') c'' := by
  have hcommitted := h'.committed
  rw [h.group] at hcommitted
  refine ⟨h'.group.trans h.group, h'.commits.trans h.commits, fun n => ?_, fun n => ?_⟩
  · cases m <;> simp [h'.stored, h.stored, latest_append, Option.or_assoc]
  · cases m <;> simp [hcommitted, h.committed, latest_append, Option.or_assoc]

/-- What the group will have committed in the end depends on the last position given for each number. A position that
was stored before outlives all commits that are not stored. -/
theorem promised_eq (h : Given m c qs c') (h' : Given m' c qs' c'') {n : Int}
    (hm : c.member.stored.get? n = none ∨ m = m') (hn : latest n qs = latest n qs') : c'.promised n = c''.promised n := by
  rw [promised, promised, h.group, h'.group, h.stored, h'.stored, h.committed, h'.committed, hn]
  rcases hm with hm | rfl
  · cases m <;> cases m' <;> simp [hm]
  · cases m <;> rfl

end Given

theorem given_store (c : Connection) (qs : List Position) : Given .buffered c qs (CommitMode.store c qs).1 := by
  induction qs generalizing c with
  | nil => exact .refl
  | cons q qs ih =>
      have hone : Given .buffered c [q] (c.store q) := by
        refine ⟨rfl, rfl, fun n => ?_, fun n => rfl⟩
        by_cases hq : q.partition.number = n <;> simp [store, latest_singleton, hq]
      rw [CommitMode.store_cons, CommitMode.broker_store]
      exact hone.trans (ih (c.store q))

theorem given_commitAll (hc : c.member.trouble.commits = false) (qs : List Position) :
    Given .immediate c qs (CommitMode.commitAll c qs).1 := by
  cases qs with
  | nil => exact .refl
  | cons q qs =>
      rw [CommitMode.broker_commitAll, show (Broker.commit c (q :: qs)).1 = (c.commit (q :: qs)).1 from rfl, commit_eq hc]
      exact ⟨rfl, rfl, fun n => rfl, fun n => c.cluster.committed_setAll_latest c.member.group (q :: qs) n⟩

theorem given_series (hc : c.member.trouble.commits = false) (t : Tracker) (pss : List (List Position)) :
    Given m c (t.advance pss.flatten).claimed (m.series t c pss).broker := by
  induction pss generalizing t c with
  | nil => exact .refl
  | cons ps pss ih =>
      have hcommit : Given m c (t.advance ps).claimed (m.commit t c ps).broker := by
        cases m with
        | buffered => exact given_store c _
        | immediate => exact given_commitAll hc _
      rw [List.flatten_cons, (t.advance_append ps pss.flatten).1]
      exact hcommit.trans (m.tracker_commit t c ps ▸ ih (hcommit.commits.trans hc) (m.commit t c ps).tracker)

end Connection

def World.committing {β : Type} (m : CommitMode) (t : Tracker) (c : β) : World β :=
  { broker := c, double := .logging, commits := some m, tracker := t }

namespace DispatchMode

open Dispatch World

/-- However the same batches are dispatched, and with whatever strategy and answers of the broker, the tracker comes to
the same snapshot once every callback has ended, behind the highest record of each partition; and a member that accepts
the commits leaves the same committed position of every partition whose number belongs to no other. -/
theorem dispatchers_agree {β β' : Type} [Broker β] [Broker β'] (t : Tracker) {bs : List Batch}
    (hoffsets : ∀ b ∈ bs, ∀ r ∈ b, Word.least ≤ r.offset ∧ r.offset < Word.greatest) :
    (∀ (mode : DispatchMode) (σ : Nat → Nat × List Outcome), ∀ b ∈ bs, Fair (begin mode b) σ →
      ∃ n, ((begin mode b).run (drives σ n)).1.done) ∧
    ∀ (mode mode' : DispatchMode) (m m' : CommitMode) (xs xs' : List (Batch × List Drive)),
      mode.Completes bs xs → mode'.Completes bs xs' →
      (∀ (c : β) (c' : β'), ((committing m t c).process mode xs).tracker.snapshot =
        ((committing m' t c').process mode' xs').tracker.snapshot) ∧
      (∀ (c : β) (p : Partition) (o : Int), Batch.IsHighest bs.flatten p o →
        ((committing m t c).process mode xs).tracker.committed? p = some (max (t.mark p) (o + 1))) ∧
      ∀ (c : Connection) (n : Int), c.member.trouble.commits = false → (c.member.stored.get? n = none ∨ m = m') →
        (∀ r ∈ bs.flatten, ∀ r' ∈ bs.flatten, r.partition.number = n → r'.partition.number = n → r.partition = r'.partition) →
        ((committing m t c).process mode xs).broker.close.cluster.committed? c.member.group n =
          ((committing m' t c).process mode' xs').broker.close.cluster.committed? c.member.group n := by
  have hfits (b : Batch) (hb : b ∈ bs) (r : Record) (hr : r ∈ b) : Word.Fits (r.offset + 1) :=
    Batch.fits_next (hoffsets b hb r hr)
  refine ⟨fun mode σ b hb hfair => (able_begin (hfits b hb)).finishes rfl hfair, fun mode mode' m m' xs xs' hxs hxs' => ?_⟩
  have hcovers := hxs.covers hfits
  have hcovers' := hxs'.covers hfits
  refine ⟨fun c c' => ?snapshot, fun c p o ho => ?highest, fun c n hc hm hn => ?committed⟩
  case snapshot =>
    have hprocess := commits_process (w := committing m t c) rfl mode xs
    have hprocess' := commits_process (w := committing m' t c') rfl mode' xs'
    rw [hprocess.tracker, hprocess'.tracker, m.tracker_series, m'.tracker_series]
    exact hcovers.snapshot hcovers' t
  case highest =>
    have hprocess := commits_process (w := committing m t c) rfl mode xs
    rw [hprocess.tracker, m.tracker_series]
    exact hcovers.committed ho t
  case committed =>
    have hprocess := commits_process (w := committing m t c) rfl mode xs
    have hprocess' := commits_process (w := committing m' t c) rfl mode' xs'
    have hgiven := Connection.given_series (m := m) hc t (mode.calls xs)
    have hgiven' := Connection.given_series (m := m') hc t (mode'.calls xs')
    rw [hprocess.broker, hprocess'.broker]
    calc (m.series t c (mode.calls xs)).broker.close.cluster.committed? c.member.group n
        = (m.series t c (mode.calls xs)).broker.promised n := by rw [← hgiven.group, Connection.committed_close]
      _ = (m'.series t c (mode'.calls xs')).broker.promised n := hgiven.promised_eq hgiven' hm (hcovers.latest hcovers' t hn)
      _ = (m'.series t c (mode'.calls xs')).broker.close.cluster.committed? c.member.group n := by
        rw [← hgiven'.group, Connection.committed_close]

theorem exists_completes (mode : DispatchMode) {bs : List Batch} (hb : ∀ b ∈ bs, ∀ r ∈ b, Word.Fits (r.offset + 1)) :
    ∃ xs, mode.Completes bs xs := by
  induction bs with
  | nil => exact ⟨[], rfl, by simp⟩
  | cons b bs ih =>
      obtain ⟨hfirst, hothers⟩ := List.forall_mem_cons.mp hb
      obtain ⟨xs, hxs, hdone⟩ := ih hothers
      obtain ⟨n, hn⟩ := (@able_begin mode b hfirst).finishes rfl (fair_everyLane _)
      exact ⟨(b, drives everyLane n) :: xs, by simp [hxs], List.forall_mem_cons.mpr ⟨hn, hdone⟩⟩

def placed (topic : String) (n offset : Int) : Record := { partition := ⟨topic, n⟩, offset := offset }

def laneByLane (lanes : List Nat) (b : Batch) : Batch × List Drive :=
  (b, lanes.flatMap (fun i => resumption (i, [.failed [] "callback failed", .ok])))

def wavering : List Batch :=
  [[placed "events" 1 5, placed "events" 0 7, placed "events" 1 4], [placed "events" 0 6, placed "events" 1 8]]

theorem dispatchers_agree_wavering : ∃ xs, multi.Completes wavering xs ∧
    let w := (committing .buffered {} CommitMode.willing).process .single (wavering.map (laneByLane [1, 0]))
    let w' := (committing .immediate {} CommitMode.willing).process .multi xs
    (∀ b ∈ wavering, ∀ r ∈ b, Word.least ≤ r.offset ∧ r.offset < Word.greatest) ∧
    single.Completes wavering (wavering.map (laneByLane [1, 0])) ∧ w.tracker.snapshot = w'.tracker.snapshot ∧
    w'.tracker.committed? ⟨"events", 1⟩ = some 9 ∧
    w.broker.close.cluster.committed? "readers" 1 = w'.broker.close.cluster.committed? "readers" 1 ∧
    w.broker.close.cluster.committed? "readers" 1 = some 9 := by
  have hoffsets : ∀ b ∈ wavering, ∀ r ∈ b, Word.least ≤ r.offset ∧ r.offset < Word.greatest := by decide
  have hnumbers : ∀ r ∈ wavering.flatten, ∀ r' ∈ wavering.flatten,
      r.partition.number = 1 → r'.partition.number = 1 → r.partition = r'.partition := by decide +kernel
  have hsingle : single.Completes wavering (wavering.map (laneByLane [1, 0])) := ⟨rfl, by decide +kernel⟩
  obtain ⟨xs, hmulti⟩ := @exists_completes multi wavering (by decide)
  obtain ⟨-, hagree⟩ := @dispatchers_agree Connection Connection _ _ {} wavering hoffsets
  obtain ⟨hsnapshot, -, hcommitted⟩ := hagree .single .multi .buffered .immediate _ xs hsingle hmulti
  obtain ⟨-, hreached, -⟩ := hagree .multi .single .immediate .buffered xs _ hmulti hsingle
  have hhighest : Batch.IsHighest wavering.flatten ⟨"events", 1⟩ 8 :=
    ⟨⟨placed "events" 1 8, by decide +kernel, rfl, rfl⟩, by decide +kernel⟩
  exact ⟨xs, hmulti, hoffsets, hsingle, hsnapshot CommitMode.willing CommitMode.willing, hreached CommitMode.willing _ 8 hhighest,
    hcommitted CommitMode.willing 1 rfl (.inl rfl) hnumbers, by decide +kernel⟩

def crossing : Batch := [placed "others" 0 3, placed "events" 0 5]

/-- Topics that share a number share what is committed with it, and which of them is the last to be committed depends on
the order between them. -/
theorem topics_share_numbers : ¬ ∀ (t : Tracker) (bs : List Batch) (m : CommitMode) (xs xs' : List (Batch × List Drive))
    (c : Connection), (∀ b ∈ bs, ∀ r ∈ b, Word.least ≤ r.offset ∧ r.offset < Word.greatest) → c.member.Fresh →
      single.Completes bs xs → multi.Completes bs xs' →
      ((committing m t c).process .single xs).tracker.snapshot = ((committing m t c).process .multi xs').tracker.snapshot ∧
      ∀ n, ((committing m t c).process .single xs).broker.close.cluster.committed? c.member.group n =
        ((committing m t c).process .multi xs').broker.close.cluster.committed? c.member.group n := by
  intro h
  have hfresh : CommitMode.willing.member.Fresh := ⟨fun _ => rfl, fun _ => rfl, rfl⟩
  obtain ⟨xs, hmulti⟩ := @exists_completes multi [crossing] (by decide)
  -- the one dispatcher comes to two positions, and the other cannot come to both of them
  have hforth : single.Completes [crossing] [laneByLane [0, 1] crossing] := ⟨rfl, by decide +kernel⟩
  have hback : single.Completes [crossing] [laneByLane [1, 0] crossing] := ⟨rfl, by decide +kernel⟩
  obtain ⟨-, hforth⟩ := h {} [crossing] .buffered _ xs CommitMode.willing (by decide) hfresh hforth hmulti
  obtain ⟨-, hback⟩ := h {} [crossing] .buffered _ xs CommitMode.willing (by decide) hfresh hback hmulti
  have hsame := (hforth 0).trans (hback 0).symm
  revert hsame
  decide +kernel

end DispatchMode

end StreamTrigger
