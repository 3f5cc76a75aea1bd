import StreamTrigger.Commit.Strategy
import StreamTrigger.Proofs.Trace
import StreamTrigger.Rehearsal.Cluster
import Mathlib.Data.List.Sort

namespace StreamTrigger

/-- A commit under way: the positions that are still to be claimed, and the claims that are still to be sent. -/
structure CommitCall where
  mode : CommitMode
  unchecked : List Position := []
  claimed : List Position := []
deriving DecidableEq, Repr

namespace CommitMode

variable {β : Type} [Broker β]

theorem store_cons (b : β) (q : Position) (qs : List Position) :
    store b (q :: qs) = ((store (store b [q]).1 qs).1, (store b [q]).2 ++ (store (store b [q]).1 qs).2) := by
  simp only [store]
  split <;> simp

theorem broker_store (b : β) (q : Position) : (store b [q]).1 = (Broker.store b q).1 := by
  simp only [store]
  split <;> simp_all

theorem broker_commitAll (b : β) (q : Position) (qs : List Position) :
    (commitAll b (q :: qs)).1 = (Broker.commit b (q :: qs)).1 := by
  simp only [commitAll, List.isEmpty_cons, Bool.false_eq_true, if_false]
  split <;> simp_all

end CommitMode

namespace Tracker

theorem advance_cons (t : Tracker) (q : Position) (qs : List Position) :
    t.advance (q :: qs) = ⟨((t.advance [q]).tracker.advance qs).tracker,
      (t.advance [q]).claimed ++ ((t.advance [q]).tracker.advance qs).claimed,
      (t.advance [q]).notices ++ ((t.advance [q]).tracker.advance qs).notices⟩ := by
  rcases h : t.claim q with ⟨t', _ | last⟩ <;> simp [advance, h]

def mark (t : Tracker) (p : Partition) : Int := (t.committed? p).getD Word.least

/-- A tracker grants a position by moving its own partition up to it, and where it grants none it stands still. -/
inductive Grants (t : Tracker) : List Position → Tracker → Prop
  | none {t' : Tracker} : (∀ p, t'.mark p = t.mark p) → Grants t [] t'
  | one {t' : Tracker} (q : Position) : t.mark q.partition < q.offset →
      (∀ p, t'.mark p = if q.partition = p then q.offset else t.mark p) → Grants t [q] t'

theorem advance_one (t : Tracker) (q : Position) :
    ((t.advance [q]).claimed = [] ∧ q.offset ≤ t.mark q.partition ∧ ∀ p, (t.advance [q]).tracker.mark p = t.mark p) ∨
      ((t.advance [q]).claimed = [q] ∧ t.mark q.partition < q.offset ∧
        ∀ p, (t.advance [q]).tracker.mark p = if q.partition = p then q.offset else t.mark p) := by
  by_cases h : t.mark q.partition < q.offset
  · have hc : t.claim q = (⟨t.last.insert q.partition q.offset⟩, .advanced) := if_pos h
    refine .inr ⟨by simp [advance, hc], h, fun p => ?_⟩
    by_cases hp : q.partition = p <;> simp [advance, hc, mark, committed?, hp]
  · have hc : t.claim q = (⟨t.last.insert q.partition (t.mark q.partition)⟩, .regressed (t.mark q.partition)) := if_neg h
    refine .inl ⟨by simp [advance, hc], Int.not_lt.mp h, fun p => ?_⟩
    by_cases hp : q.partition = p
    · subst hp
      simp [advance, hc, mark, committed?]
    · simp [advance, hc, mark, committed?, hp]

theorem grants_advance (t : Tracker) (q : Position) : Grants t (t.advance [q]).claimed (t.advance [q]).tracker := by
  rcases t.advance_one q with ⟨hc, -, hm⟩ | ⟨hc, hlt, hm⟩
  · rw [hc]
    exact .none hm
  · rw [hc]
    exact .one q hlt hm

end Tracker

namespace Event

def granted : Event → List Position
  | noted (.work (.advanced q)) => [q]
  | _ => []

end Event

theorem Tracker.granted_advance (t : Tracker) (qs : List Position) :
    ((t.advance qs).notices.map (fun n => Event.noted (.work n))).flatMap Event.granted = (t.advance qs).claimed := by
  induction qs generalizing t with
  | nil => rfl
  | cons q qs ih => rcases h : t.claim q with ⟨t', _ | last⟩ <;> simp [advance, h, Event.granted, ih]

namespace CommitCall

variable {β : Type} [Broker β]

def done (c : CommitCall) : Bool := c.unchecked.isEmpty && c.claimed.isEmpty

/-- One atomic step: a claim, or one call of the broker with what was claimed. -/
def step (c : CommitCall) (t : Tracker) (b : β) : CommitCall × Committed β :=
  match c.unchecked, c.claimed with
  | q :: qs, _ =>
      let a := t.advance [q]
      ({ c with unchecked := qs, claimed := c.claimed ++ a.claimed },
        ⟨a.tracker, b, a.notices.map (fun n => .noted (.work n))⟩)
  | [], [] => (c, ⟨t, b, []⟩)
  | [], q :: qs =>
      match c.mode with
      | .buffered => let (b, es) := CommitMode.store b [q]; ({ c with claimed := qs }, ⟨t, b, es⟩)
      | .immediate => let (b, es) := CommitMode.commitAll b (q :: qs); ({ c with claimed := [] }, ⟨t, b, es⟩)

theorem done_iff {c : CommitCall} : c.done ↔ c.unchecked = [] ∧ c.claimed = [] := by simp [done]

theorem step_done {c : CommitCall} (h : c.done) (t : Tracker) (b : β) : c.step t b = (c, ⟨t, b, []⟩) := by
  obtain ⟨hu, hc⟩ := done_iff.mp h
  simp [step, hu, hc]

inductive Effect (c : CommitCall) (t : Tracker) (b : β) : CommitCall → Committed β → Prop
  | rests : c.done → Effect c t b c ⟨t, b, []⟩
  | claims (q : Position) (qs : List Position) : c.unchecked = q :: qs →
      Effect c t b { c with unchecked := qs, claimed := c.claimed ++ (t.advance [q]).claimed }
        ⟨(t.advance [q]).tracker, b, (t.advance [q]).notices.map (fun n => .noted (.work n))⟩
  | stores (q : Position) (qs : List Position) : c.unchecked = [] → c.claimed = q :: qs → c.mode = .buffered →
      Effect c t b { c with claimed := qs } ⟨t, (Broker.store b q).1, (CommitMode.store b [q]).2⟩
  | sends (q : Position) (qs : List Position) : c.unchecked = [] → c.claimed = q :: qs → c.mode = .immediate →
      Effect c t b { c with claimed := [] } ⟨t, (Broker.commit b (q :: qs)).1, (CommitMode.commitAll b (q :: qs)).2⟩

theorem step_effect (c : CommitCall) (t : Tracker) (b : β) : Effect c t b (c.step t b).1 (c.step t b).2 := by
  cases hu : c.unchecked with
  | cons q qs => simpa only [step, hu] using Effect.claims q qs hu
  | nil =>
      cases hc : c.claimed with
      | nil => simpa only [step, hu, hc] using Effect.rests (done_iff.mpr ⟨hu, hc⟩)
      | cons q qs =>
          cases hm : c.mode with
          | buffered => simpa only [step, hu, hc, hm, CommitMode.broker_store] using Effect.stores q qs hu hc hm
          | immediate => simpa only [step, hu, hc, hm, CommitMode.broker_commitAll] using Effect.sends q qs hu hc hm

def alone (c : CommitCall) (t : Tracker) (b : β) : Nat → CommitCall × Committed β
  | 0 => (c, ⟨t, b, []⟩)
  | n + 1 =>
      let (c, r) := c.step t b
      let (c, r') := c.alone r.tracker r.broker n
      (c, ⟨r'.tracker, r'.broker, r.events ++ r'.events⟩)

theorem alone_check (mode : CommitMode) (cs ps : List Position) (t : Tracker) (b : β) (n : Nat) :
    alone ⟨mode, ps, cs⟩ t b (ps.length + n) =
      let a := t.advance ps
      let (c, r) := alone ⟨mode, [], cs ++ a.claimed⟩ a.tracker b n
      (c, ⟨r.tracker, r.broker, a.notices.map (fun n => .noted (.work n)) ++ r.events⟩) := by
  induction ps generalizing t cs with
  | nil => simp [Tracker.advance]
  | cons q qs ih =>
      rw [List.length_cons, Nat.add_right_comm, Tracker.advance_cons]
      simp [alone, step, ih]

theorem alone_store (cs : List Position) (t : Tracker) (b : β) :
    alone ⟨.buffered, [], cs⟩ t b cs.length =
      (⟨.buffered, [], []⟩, ⟨t, (CommitMode.store b cs).1, (CommitMode.store b cs).2⟩) := by
  induction cs generalizing b with
  | nil => rfl
  | cons q qs ih =>
      rw [CommitMode.store_cons]
      simp [alone, step, ih]

/-- A call that nobody disturbs does what the commit does at once. -/
theorem alone_eq_commit (mode : CommitMode) (ps : List Position) (t : Tracker) (b : β) :
    ∃ n, alone ⟨mode, ps, []⟩ t b n = (⟨mode, [], []⟩, mode.commit t b ps) := by
  cases mode with
  | buffered =>
      refine ⟨ps.length + (t.advance ps).claimed.length, ?_⟩
      rw [alone_check]
      simp only [List.nil_append, alone_store]
      rfl
  | immediate =>
      refine ⟨ps.length + 1, ?_⟩
      rw [alone_check]
      cases hc : (t.advance ps).claimed with
      | nil => simp [alone, step, CommitMode.commit, CommitMode.commitAll, hc]
      | cons q qs => simp [alone, step, CommitMode.commit, hc]

theorem submitted_store (b : β) (qs : List Position) : (CommitMode.store b qs).2.flatMap Event.submitted = qs := by
  induction qs generalizing b with
  | nil => rfl
  | cons q qs ih =>
      simp only [CommitMode.store]
      split <;> simp [Event.submitted, ih]

theorem submitted_commitAll (b : β) (qs : List Position) :
    (CommitMode.commitAll b qs).2.flatMap Event.submitted = qs := by
  rw [CommitMode.commitAll]
  split
  · next h => simpa using h
  · split <;> simp [Event.submitted]

theorem granted_store (b : β) (qs : List Position) : (CommitMode.store b qs).2.flatMap Event.granted = [] := by
  induction qs generalizing b with
  | nil => rfl
  | cons q qs ih =>
      simp only [CommitMode.store]
      split <;> simp [Event.granted, ih]

theorem granted_commitAll (b : β) (qs : List Position) : (CommitMode.commitAll b qs).2.flatMap Event.granted = [] := by
  rw [CommitMode.commitAll]
  split
  · rfl
  · split <;> simp [Event.granted]

theorem silent_store (b : β) (q : Position) : ∀ e ∈ (CommitMode.store b [q]).2, e.silent := by
  simp only [CommitMode.store]
  split <;> simp [Event.silent]

theorem silent_commitAll (b : β) (qs : List Position) : ∀ e ∈ (CommitMode.commitAll b qs).2, e.silent := by
  simp only [CommitMode.commitAll]
  split
  · simp
  · split <;> simp [Event.silent]

theorem step_silent (c : CommitCall) (t : Tracker) (b : β) : ∀ e ∈ (c.step t b).2.events, e.silent := by
  have he := c.step_effect t b
  generalize c.step t b = r at he ⊢
  obtain ⟨c', r⟩ := r
  cases he with
  | rests => simp
  | claims q qs => simp [Event.silent]
  | stores q qs => exact silent_store b q
  | sends q qs => exact silent_commitAll b (q :: qs)

theorem step_accounts (c : CommitCall) (t : Tracker) (b : β) :
    (c.step t b).2.events.flatMap Event.submitted ++ (c.step t b).1.claimed =
      c.claimed ++ (c.step t b).2.events.flatMap Event.granted := by
  have he := c.step_effect t b
  generalize c.step t b = r at he ⊢
  obtain ⟨c', r⟩ := r
  cases he with
  | rests => simp
  | claims q qs =>
      have hn : ∀ ns : List WorkTask, (ns.map (fun n => Event.noted (.work n))).flatMap Event.submitted = [] := by
        simp [Event.submitted, List.flatMap_map]
      rw [Tracker.granted_advance, hn]
      rfl
  | stores q qs hu hc hm => simp [submitted_store, granted_store, hc]
  | sends q qs hu hc hm => simp [submitted_commitAll, granted_commitAll, hc]

theorem step_grants (c : CommitCall) (t : Tracker) (b : β) :
    t.Grants ((c.step t b).2.events.flatMap Event.granted) (c.step t b).2.tracker := by
  have he := c.step_effect t b
  generalize c.step t b = r at he ⊢
  obtain ⟨c', r⟩ := r
  cases he with
  | rests => exact .none (fun _ => rfl)
  | claims q qs =>
      rw [Tracker.granted_advance]
      exact t.grants_advance q
  | stores q qs =>
      rw [granted_store]
      exact .none (fun _ => rfl)
  | sends q qs =>
      rw [granted_commitAll]
      exact .none (fun _ => rfl)

end CommitCall

structure CommitPool (β : Type) where
  tracker : Tracker
  broker : β
  calls : List CommitCall := []
  events : List Event := []

/-- Someone makes a commit, or one of the commits under way makes its next step. -/
inductive CommitMove where
  | invoke (mode : CommitMode) (ps : List Position)
  | go (caller : Nat)
deriving DecidableEq, Repr

def Partition.offsets (p : Partition) (qs : List Position) : List Int :=
  (qs.filter (fun q => q.partition = p)).map Position.offset

namespace Partition

@[simp] theorem offsets_nil (p : Partition) : p.offsets [] = [] := rfl

@[simp] theorem offsets_append (p : Partition) (qs qs' : List Position) :
    p.offsets (qs ++ qs') = p.offsets qs ++ p.offsets qs' := by simp [offsets]

theorem offsets_singleton (p : Partition) (q : Position) :
    p.offsets [q] = if q.partition = p then [q.offset] else [] := by
  by_cases h : q.partition = p <;> simp [offsets, h]

theorem mem_offsets {p : Partition} {qs : List Position} {o : Int} :
    o ∈ p.offsets qs ↔ ∃ q ∈ qs, q.partition = p ∧ q.offset = o := by
  simp [offsets, and_assoc]

end Partition

namespace CommitPool

open scoped List

variable {β : Type}

def granted (s : CommitPool β) : List Position := s.events.flatMap Event.granted

def received (s : CommitPool β) : List Position := s.events.flatMap Event.submitted

def underway (s : CommitPool β) : List Position := s.calls.flatMap CommitCall.claimed

structure Climbing (s : CommitPool β) : Prop where
  climb : ∀ p : Partition, (p.offsets s.granted).Pairwise (· < ·)
  below : ∀ p : Partition, ∀ o ∈ p.offsets s.granted, o ≤ s.tracker.mark p
  accounted : (s.received ++ s.underway).Perm s.granted

theorem climbing_init (t : Tracker) (b : β) : Climbing (⟨t, b, [], []⟩ : CommitPool β) :=
  ⟨fun _ => .nil, by simp [granted], .refl _⟩

theorem flatMap_set {α γ : Type} (f : α → List γ) {xs : List α} {i : Nat} {x : α} (h : xs[i]? = some x) :
    ∃ rest, (xs.flatMap f).Perm (f x ++ rest) ∧ ∀ y, ((xs.set i y).flatMap f).Perm (f y ++ rest) := by
  induction xs generalizing i with
  | nil => simp at h
  | cons y xs ih =>
      cases i with
      | zero =>
          simp only [List.getElem?_cons_zero, Option.some.injEq] at h
          subst h
          exact ⟨xs.flatMap f, .refl _, fun _ => .refl _⟩
      | succ i =>
          simp only [List.getElem?_cons_succ] at h
          obtain ⟨rest, hx, hset⟩ := ih h
          have hswap (zs : List γ) : (f y ++ (zs ++ rest)).Perm (zs ++ (f y ++ rest)) := by
            simpa only [List.append_assoc] using List.perm_append_comm.append_right rest
          exact ⟨f y ++ rest, (hx.append_left _).trans (hswap _), fun z => ((hset z).append_left _).trans (hswap _)⟩

theorem climb_grant {gs qs : List Position} {t t' : Tracker} (hg : t.Grants qs t') (p : Partition)
    (hc : (p.offsets gs).Pairwise (· < ·)) (hb : ∀ o ∈ p.offsets gs, o ≤ t.mark p) :
    (p.offsets (gs ++ qs)).Pairwise (· < ·) ∧ ∀ o ∈ p.offsets (gs ++ qs), o ≤ t'.mark p := by
  cases hg with
  | none hm => simpa [hm p] using And.intro hc hb
  | one q hlt hm =>
      rw [Partition.offsets_append, Partition.offsets_singleton, hm p]
      by_cases hp : q.partition = p
      · subst hp
        have hlast (o : Int) (ho : o ∈ q.partition.offsets gs) : o < q.offset := Int.lt_of_le_of_lt (hb o ho) hlt
        rw [if_pos rfl, if_pos rfl]
        constructor
        · refine List.pairwise_append.mpr ⟨hc, List.pairwise_singleton .., fun o ho o' ho' => ?_⟩
          rw [List.mem_singleton.mp ho']
          exact hlast o ho
        · intro o ho
          rcases List.mem_append.mp ho with ho | ho
          · exact Int.le_of_lt (hlast o ho)
          · exact Int.le_of_eq (List.mem_singleton.mp ho)
      · rw [if_neg hp, if_neg hp, List.append_nil]
        exact ⟨hc, hb⟩

variable [Broker β]

def move (s : CommitPool β) : CommitMove → CommitPool β
  | .invoke mode ps => { s with calls := s.calls ++ [{ mode := mode, unchecked := ps }] }
  | .go i =>
      match s.calls[i]? with
      | none => s
      | some c =>
          let (c, r) := c.step s.tracker s.broker
          ⟨r.tracker, r.broker, s.calls.set i c, s.events ++ r.events⟩

def run (s : CommitPool β) (ms : List CommitMove) : CommitPool β := ms.foldl move s

theorem Climbing.move {s : CommitPool β} (h : Climbing s) (m : CommitMove) : Climbing (s.move m) := by
  cases m with
  | invoke mode ps =>
      refine ⟨h.climb, h.below, ?_⟩
      have hu : (s.move (.invoke mode ps)).underway = s.underway := by simp [underway, CommitPool.move]
      rw [hu]
      exact h.accounted
  | go i =>
      cases hc : s.calls[i]? with
      | none => simpa only [CommitPool.move, hc] using h
      | some c =>
          have hmove : s.move (.go i) = ⟨(c.step s.tracker s.broker).2.tracker, (c.step s.tracker s.broker).2.broker,
              s.calls.set i (c.step s.tracker s.broker).1, s.events ++ (c.step s.tracker s.broker).2.events⟩ := by
            simp only [CommitPool.move, hc]
          have hacc := c.step_accounts s.tracker s.broker
          have hgrants := c.step_grants s.tracker s.broker
          generalize c.step s.tracker s.broker = cr at hmove hacc hgrants
          obtain ⟨c', t, b, es⟩ := cr
          have hg : (s.move (.go i)).granted = s.granted ++ es.flatMap Event.granted := by simp [hmove, granted]
          have hclimb (p : Partition) := climb_grant hgrants p (h.climb p) (h.below p)
          refine ⟨fun p => ?_, fun p => ?_, ?_⟩
          · rw [hg]
            exact (hclimb p).1
          · rw [hg, hmove]
            exact (hclimb p).2
          · obtain ⟨rest, hold, hnew⟩ := flatMap_set CommitCall.claimed hc
            rw [hg, hmove]
            calc received (⟨t, b, s.calls.set i c', s.events ++ es⟩ : CommitPool β) ++ (s.calls.set i c').flatMap CommitCall.claimed
                = s.received ++ es.flatMap Event.submitted ++ (s.calls.set i c').flatMap CommitCall.claimed := by
                  simp [received]
              _ ~ s.received ++ es.flatMap Event.submitted ++ (c'.claimed ++ rest) := (hnew c').append_left _
              _ = s.received ++ (c.claimed ++ es.flatMap Event.granted) ++ rest := by
                  rw [← hacc]; simp
              _ ~ s.received ++ (c.claimed ++ rest) ++ es.flatMap Event.granted := by
                  simp only [List.append_assoc]
                  exact (List.perm_append_comm.append_left _).append_left _
              _ ~ s.received ++ s.underway ++ es.flatMap Event.granted :=
                  ((hold.symm.append_left _).append_right _)
              _ ~ s.granted ++ es.flatMap Event.granted := h.accounted.append_right _

theorem climbing_run {s : CommitPool β} (h : Climbing s) (ms : List CommitMove) : Climbing (s.run ms) := by
  induction ms generalizing s with
  | nil => exact h
  | cons m ms ih => exact ih (h.move m)

/-- For each partition the grants climb, so what the broker receives never falls back exactly when it comes in the
order in which it was granted. -/
theorem received_ordered_iff (t : Tracker) (b : β) (ms : List CommitMove) (p : Partition) :
    let s := run (⟨t, b, [], []⟩ : CommitPool β) ms
    (p.offsets s.granted).Pairwise (· < ·) ∧
      ((p.offsets s.received).Pairwise (· ≤ ·) ↔ (p.offsets s.received).Sublist (p.offsets s.granted)) := by
  intro s
  have h : Climbing s := climbing_run (climbing_init t b) ms
  have hle : (p.offsets s.granted).Pairwise (· ≤ ·) := (h.climb p).imp Int.le_of_lt
  have hsub : (p.offsets s.received).Subperm (p.offsets s.granted) := by
    have hperm := (h.accounted.filter (fun q => q.partition = p)).map Position.offset
    rw [List.filter_append, List.map_append] at hperm
    exact (List.sublist_append_left _ _).subperm.trans hperm.subperm
  exact ⟨h.climb p, fun hs => List.sublist_of_subperm_of_pairwise hsub hs hle, fun hs => hle.sublist hs⟩

def overtaken : List CommitMove :=
  [.invoke .immediate [⟨⟨"events", 0⟩, 5⟩], .invoke .immediate [⟨⟨"events", 0⟩, 7⟩], .go 0, .go 1, .go 1, .go 0]

/-- The tracker moves forward only, but what it granted may come to the broker in another order. -/
theorem received_falls_back : ¬ ∀ (ms : List CommitMove) (p : Partition),
    (p.offsets (run (⟨{}, ⟨.make "events" 1, { group := "readers" }⟩, [], []⟩ : CommitPool Connection) ms).received).Pairwise
      (· ≤ ·) := by
  intro h
  have hp := h overtaken ⟨"events", 0⟩
  revert hp
  decide

end CommitPool

end StreamTrigger
