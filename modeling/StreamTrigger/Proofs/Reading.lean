import StreamTrigger.Proofs.AtLeastOnce
import StreamTrigger.Proofs.Membership

namespace StreamTrigger

open Trace

namespace Connection

def first (b : Connection) (n : Nat) : Int := b.cluster.resumeAt b.member.group n

def span (b : Connection) (n k : Nat) : List Int := (List.range k).map (fun (i : Nat) => b.first n + i)

theorem span_succ (b : Connection) (n k : Nat) : b.span n (k + 1) = b.span n k ++ [b.first n + k] := by
  simp [span, List.range_succ]

theorem mem_span {b : Connection} {n k : Nat} {o : Int} : o ∈ b.span n k ↔ b.first n ≤ o ∧ o < b.first n + k := by
  simp only [span, List.mem_map, List.mem_range]
  constructor
  · rintro ⟨i, hi, rfl⟩
    omega
  · intro h
    exact ⟨(o - b.first n).toNat, by omega, by omega⟩

theorem advanced_eq (pos : Nat → Int) (c : Cluster) (e : Option PollEvent) (n : Nat) :
    Member.advanced pos c e n = pos n + ((c.partition n).part (records e)).length := by
  rcases e with _ | r | p
  · simp [Member.advanced, records]
  · by_cases h : r.partition = c.partition n <;> simp [Member.advanced, records, Partition.part, h]
  · simp [Member.advanced, records]

end Connection

open Connection

def Connection.polledOf (b : Connection) (ms : List Mark) (n : Nat) : List Record := (b.cluster.partition n).part (polled ms)

def Connection.doneOf (b : Connection) (ms : List Mark) (n : Nat) : List Record := (b.cluster.partition n).part (completed ms)

def Connection.owed (b : Connection) (ms : List Mark) (n : Nat) : Option Int :=
  if (b.doneOf ms n).length = 0 then b.cluster.committed? b.member.group n
  else some (b.first n + (b.doneOf ms n).length)

def CommitCall.pending (c : CommitCall) : List Position := c.unchecked ++ c.claimed

namespace Pipeline

/-- All partitions are read in order, and the member stands behind what was polled. -/
structure Reading (b : Connection) (s : Pipeline Connection) : Prop where
  alike : b.Alike s.broker
  known : ∀ r ∈ polled s.marks, Word.Fits (r.offset + 1) ∧ ∃ n < b.cluster.size, r.partition = b.cluster.partition n
  inOrder : ∀ n, (b.polledOf s.marks n).map Record.offset = b.span n (b.polledOf s.marks n).length
  places : ∀ n : Nat, s.broker.member.positions.get? n = some (b.first n + (b.polledOf s.marks n).length) ∨
    s.broker.member.positions.get? n = none ∧ (b.polledOf s.marks n).length = 0

variable {b : Connection} {s s' : Pipeline Connection}

theorem Reading.congr (h : Reading b s) (hb : s.broker.Alike s'.broker)
    (hp : s'.broker.member.positions = s.broker.member.positions) (hm : polled s'.marks = polled s.marks) :
    Reading b s' where
  alike := h.alike.trans hb
  known := by simpa only [hm] using h.known
  inOrder := by simpa only [polledOf, hm] using h.inOrder
  places := by simpa only [polledOf, hm, hp] using h.places

section Poll

variable (hs : s.broker.flush.member.Stands s.broker.flush.cluster b.first
  (fun n => b.first n + (b.polledOf s.marks n).length))

include hs

/-- What a poll brings is the next record of its partition. -/
theorem Reading.next (h : Reading b s) {r : Record} (hr : r ∈ records (brought s.broker.poll.2)) :
    ∃ (n : Nat) (l : PartitionLog), s.broker.cluster.logs[n]? = some l ∧ r.partition = b.cluster.partition n ∧
      r.offset = b.first n + (b.polledOf s.marks n).length ∧ r.offset < l.high := by
  obtain ⟨-, -, hread⟩ := poll_spec hs
  obtain ⟨n, l, hl, hp, ho, hlt⟩ := hread r (mem_records.mp hr)
  exact ⟨n, l, hl, hp.trans (h.alike.partition n), ho, ho ▸ hlt⟩

theorem Reading.next_known (h : Reading b s) (hf : b.cluster.Fits) {r : Record}
    (hr : r ∈ records (brought s.broker.poll.2)) :
    Word.Fits (r.offset + 1) ∧ ∃ n < b.cluster.size, r.partition = b.cluster.partition n := by
  obtain ⟨n, l, hl, hp, ho, hlt⟩ := h.next hs hr
  have hfits := h.alike.fits hf
  have hlow := hfits.low l (List.mem_of_getElem? hl)
  have hhigh := hfits.high l (List.mem_of_getElem? hl)
  have hfirst : l.low ≤ b.first n := by
    rw [← low_of_log hl, h.alike.low]
    exact Int.le_max_right ..
  refine ⟨⟨by omega, by omega⟩, n, ?_, hp⟩
  rw [← h.alike.size]
  exact (List.getElem?_eq_some_iff.mp hl).1

theorem Reading.poll (h : Reading b s) (hf : b.cluster.Fits) (hb : s'.broker = s.broker.poll.1)
    (hm : polled s'.marks = polled s.marks ++ records (brought s.broker.poll.2)) : Reading b s' := by
  obtain ⟨hsteady, hplaces, -⟩ := poll_spec hs
  have hpolled (n : Nat) : b.polledOf s'.marks n =
      b.polledOf s.marks n ++ (b.cluster.partition n).part (records (brought s.broker.poll.2)) := by
    simp [polledOf, hm]
  refine ⟨?alike, ?known, ?inOrder, ?places⟩
  case alike => exact h.alike.trans (hb ▸ hsteady.toAlike)
  case known =>
    intro r hr
    rw [hm] at hr
    rcases List.mem_append.mp hr with hr | hr
    · exact h.known r hr
    · exact h.next_known hs hf hr
  case inOrder =>
    intro n
    rw [hpolled]
    by_cases hr : ∃ r ∈ records (brought s.broker.poll.2), r.partition = b.cluster.partition n
    · obtain ⟨r, hr, hp⟩ := hr
      obtain ⟨k, l, -, hk, ho, -⟩ := h.next hs hr
      have hkn : k = n := Member.partition_inj.mp (hk.symm.trans hp)
      subst hkn
      have hone : (b.cluster.partition k).part (records (brought s.broker.poll.2)) = [r] := by
        rw [records_eq (mem_records.mp hr)]
        exact Partition.part_eq_self (by simp [hp])
      rw [hone, List.map_append, h.inOrder, List.length_append, List.length_singleton, span_succ]
      simp [ho]
    · have hnone : (b.cluster.partition n).part (records (brought s.broker.poll.2)) = [] :=
        Partition.part_eq_nil (fun r hm hp => hr ⟨r, hm, hp⟩)
      rw [hnone, List.append_nil]
      exact h.inOrder n
  case places =>
    intro n
    have hp := hplaces n
    rw [advanced_eq, h.alike.partition, ← hb] at hp
    rw [hpolled, List.length_append, Int.natCast_add, ← Int.add_assoc]
    exact hp.imp_right (fun hn => ⟨hn.1, by omega⟩)

end Poll

/-- What is owed to the group is promised to it, or on its way. -/
structure Settling (b : Connection) (s : Pipeline Connection) : Prop where
  due : ∀ q ∈ s.call.pending, ∃ n : Nat, q.partition = b.cluster.partition n ∧ 0 < (b.doneOf s.marks n).length ∧
    q.offset = b.first n + (b.doneOf s.marks n).length
  settled : ∀ n : Nat, (∀ q ∈ s.call.pending, q.partition ≠ b.cluster.partition n) →
    s.broker.promised n = b.owed s.marks n
  mark : ∀ n : Nat, s.tracker.mark (b.cluster.partition n) ≤ b.first n + (b.doneOf s.marks n).length
  unclaimed : ∀ q ∈ s.call.unchecked, s.tracker.mark q.partition < q.offset
  distinct : (s.call.unchecked.map Position.partition).Nodup
  stored : s.call.mode = .immediate → ∀ n, s.broker.member.stored.get? n = none

theorem Settling.congr (h : Settling b s) (hb : s.broker.Steady s'.broker) (hc : s'.call = s.call)
    (ht : s'.tracker = s.tracker) (hm : completed s'.marks = completed s.marks) : Settling b s' where
  due := by simpa only [hc, doneOf, hm] using h.due
  settled n hn := by
    have hdone : b.doneOf s'.marks n = b.doneOf s.marks n := by simp only [doneOf, hm]
    rw [hb.promised, h.settled n (by simpa only [hc] using hn), owed, owed, hdone]
  mark := by simpa only [ht, doneOf, hm] using h.mark
  unclaimed := by simpa only [hc, ht] using h.unclaimed
  distinct := by simpa only [hc] using h.distinct
  stored hi := hb.stored (h.stored (hc ▸ hi))

theorem stands_flush (hr : Reading b s) (hs : Settling b s)
    (hd : ∀ n, (b.doneOf s.marks n).length ≤ (b.polledOf s.marks n).length) :
    s.broker.flush.member.Stands s.broker.flush.cluster b.first (fun n => b.first n + (b.polledOf s.marks n).length) := by
  refine ⟨fun n l hl => ?_, fun n => (hr.places n).imp_right (fun hn => ⟨hn.1, by omega⟩)⟩
  have hl : s.broker.cluster.logs[n]? = some l := by simpa [flush_cluster] using hl
  have hlow : b.cluster.low n = l.low := by rw [← hr.alike.low, low_of_log hl]
  have hfirst : l.low ≤ b.first n := by
    rw [← hlow]
    exact Int.le_max_right ..
  rcases hr.places n with hp | ⟨hp, hk⟩
  · have hpos : s.broker.flush.member.position s.broker.flush.cluster n l =
        max (b.first n + (b.polledOf s.marks n).length) l.low := by
      simp [Member.position, Connection.flush, hp]
    omega
  · -- nothing was polled here, so nothing is done or on its way, and the group stands where it stood
    have hdone : (b.doneOf s.marks n).length = 0 := by
      have := hd n
      omega
    have howed := hs.settled n (fun q hq he => by
      obtain ⟨k, hk', hpos, -⟩ := hs.due q hq
      have hkn : k = n := Member.partition_inj.mp (hk'.symm.trans he)
      subst hkn
      omega)
    have hcommitted := (s.broker.committed_flush n).trans howed
    rw [owed, if_pos hdone] at hcommitted
    have hpos : s.broker.flush.member.position s.broker.flush.cluster n l = b.first n := by
      have hn : s.broker.flush.member.positions.get? n = none := hp
      have hg : s.broker.flush.member.group = s.broker.member.group := rfl
      simp only [Member.position, hn, hg, hcommitted, Option.getD_none, first, Cluster.resumeAt, hlow]
    omega

theorem completed_commit (s : Pipeline Connection) : completed s.commit.marks = completed s.marks := by
  have hs := Event.concluded_silent (s.call.step_silent s.tracker s.broker)
  simp [Pipeline.commit, Trace.completed, hs]

theorem doneOf_congr (hm : completed s'.marks = completed s.marks) (n : Nat) : b.doneOf s'.marks n = b.doneOf s.marks n := by
  simp only [doneOf, hm]

theorem Settling.claim (h : Settling b s) {q : Position} {qs : List Position} (hq : s.call.unchecked = q :: qs)
    (hcall : s'.call = { s.call with unchecked := qs, claimed := s.call.claimed ++ (s.tracker.advance [q]).claimed })
    (htracker : s'.tracker = (s.tracker.advance [q]).tracker) (hbroker : s'.broker = s.broker)
    (hm : completed s'.marks = completed s.marks) : Settling b s' := by
  have hmem : q ∈ s.call.unchecked := hq ▸ List.mem_cons_self
  rcases s.tracker.advance_one q with ⟨-, hle, -⟩ | ⟨hc, -, hmark⟩
  · exact absurd (h.unclaimed q hmem) (Int.not_lt.mpr hle)
  · rw [hc] at hcall
    have hpending : ∀ r, r ∈ s'.call.pending ↔ r ∈ s.call.pending := by
      intro r
      simp only [hcall, CommitCall.pending, hq, List.mem_append, List.mem_cons, List.not_mem_nil]
      tauto
    have hdistinct := h.distinct
    rw [hq, List.map_cons, List.nodup_cons] at hdistinct
    obtain ⟨k, hk, hpos, hoff⟩ := h.due q (List.mem_append_left _ hmem)
    refine ⟨?due, ?settled, ?mark, ?unclaimed, ?distinct, ?stored⟩
    case due =>
      intro r hr
      simpa only [doneOf_congr hm] using h.due r ((hpending r).mp hr)
    case settled =>
      intro n hn
      rw [hbroker, owed, doneOf_congr hm]
      exact h.settled n (fun r hr => hn r ((hpending r).mpr hr))
    case mark =>
      intro n
      rw [htracker, hmark, doneOf_congr hm]
      split
      · next he =>
          have hkn : k = n := Member.partition_inj.mp (hk.symm.trans he)
          subst hkn
          omega
      · exact h.mark n
    case unclaimed =>
      intro r hr
      have hr : r ∈ qs := by simpa [hcall] using hr
      have hne : q.partition ≠ r.partition := fun he => hdistinct.1 (he ▸ List.mem_map_of_mem hr)
      rw [htracker, hmark, if_neg hne]
      exact h.unclaimed r (hq ▸ List.mem_cons_of_mem q hr)
    case distinct => simpa [hcall] using hdistinct.2
    case stored =>
      intro hi
      rw [hbroker]
      exact h.stored (by simpa [hcall] using hi)

/-- With nothing left to claim, what a call sends takes the place of what was promised. -/
theorem Settling.send (h : Settling b s) (hu : s.call.unchecked = []) {sent kept : List Position}
    (hc : s.call.claimed = sent ++ kept) (hcall : s'.call = { s.call with claimed := kept })
    (htracker : s'.tracker = s.tracker) (hm : completed s'.marks = completed s.marks)
    (hbroker : ∀ n v : Int, (∀ q ∈ sent, q.partition.number = n → q.offset = v) →
      s'.broker.promised n = if n ∈ sent.map (fun q => q.partition.number) then some v else s.broker.promised n)
    (hstored : s.call.mode = .immediate → ∀ n, s'.broker.member.stored.get? n = none) : Settling b s' := by
  have hpending : s.call.pending = sent ++ kept := by simp [CommitCall.pending, hu, hc]
  have hkept : s'.call.pending = kept := by simp [CommitCall.pending, hcall, hu]
  refine ⟨?due, ?settled, ?mark, ?unclaimed, ?distinct, ?stored⟩
  case due =>
    intro r hr
    rw [hkept] at hr
    simpa only [doneOf_congr hm] using h.due r (hpending ▸ List.mem_append_right _ hr)
  case settled =>
    intro n hn
    rw [hkept] at hn
    have hv : ∀ q ∈ sent, q.partition.number = n → q.partition = b.cluster.partition n ∧
        0 < (b.doneOf s.marks n).length ∧ q.offset = b.first n + (b.doneOf s.marks n).length := by
      intro q hq he
      obtain ⟨k, hk, hpos, hoff⟩ := h.due q (hpending ▸ List.mem_append_left _ hq)
      have hkn : k = n := by
        rw [hk] at he
        exact Int.ofNat_inj.mp he
      subst hkn
      exact ⟨hk, hpos, hoff⟩
    rw [hbroker n _ (fun q hq he => (hv q hq he).2.2), owed, doneOf_congr hm]
    split
    · next hmem =>
        obtain ⟨q, hq, he⟩ := List.mem_map.mp hmem
        have hpos := (hv q hq he).2.1
        rw [if_neg (by omega)]
    · next hmem =>
        apply h.settled n
        intro q hq he
        rw [hpending] at hq
        rcases List.mem_append.mp hq with hq | hq
        · exact hmem (List.mem_map.mpr ⟨q, hq, by rw [he]; rfl⟩)
        · exact hn q hq he
  case mark =>
    intro n
    rw [htracker, doneOf_congr hm]
    exact h.mark n
  case unclaimed => simp [hcall, hu]
  case distinct => simp [hcall, hu]
  case stored =>
    intro hi
    exact hstored (by simpa [hcall] using hi)

theorem Settling.commit (h : Settling b s) (hf : s.broker.member.trouble.commits = false) : Settling b s.commit := by
  have hm := completed_commit s
  have he := s.call.step_effect s.tracker s.broker
  rw [Pipeline.commit] at hm ⊢
  generalize s.call.step s.tracker s.broker = r at he hm ⊢
  obtain ⟨c, r⟩ := r
  cases he with
  | rests => exact h.congr (.refl _) rfl rfl hm
  | claims q qs hu => exact h.claim hu rfl rfl rfl hm
  | stores q qs hu hc hmode =>
      have hsent : s.call.claimed = [q] ++ qs := hc
      refine h.send hu hsent rfl rfl hm (fun n v hv => ?_) (by simp [hmode])
      apply (promised_store s.broker q n).trans
      by_cases hn : q.partition.number = n
      · simp [hn, hv q (by simp) hn]
      · simp [hn, Ne.symm hn]
  | sends q qs hu hc hmode =>
      have hsent : s.call.claimed = (q :: qs) ++ [] := by simpa using hc
      have hstored := h.stored hmode
      have hkeeps (n : Int) : (s.broker.commit (q :: qs)).1.member.stored.get? n = none := by
        rw [commit_eq hf]
        exact hstored n
      exact h.send hu hsent rfl rfl hm (fun n v hv => promised_commit hstored hf (q :: qs) hv) (fun _ n => hkeeps n)

theorem Reading.commit (h : Reading b s) (hf : s.broker.member.trouble.commits = false) : Reading b s.commit := by
  have hm : polled s.commit.marks = polled s.marks := by simp [Pipeline.commit]
  have he := s.call.step_effect s.tracker s.broker
  rw [Pipeline.commit] at hm ⊢
  generalize s.call.step s.tracker s.broker = r at he hm ⊢
  obtain ⟨c, r⟩ := r
  cases he with
  | rests => exact h.congr (.refl _) rfl hm
  | claims => exact h.congr (.refl _) rfl hm
  | stores q qs => exact h.congr (alike_store s.broker q) rfl hm
  | sends q qs =>
      have hkeeps : (s.broker.commit (q :: qs)).1.member.positions = s.broker.member.positions := by rw [commit_eq hf]
      exact h.congr (alike_commit hf (q :: qs)) hkeeps hm

section Ask

variable (now : Nat) (heard : Bool)

theorem ask_cases (s : Pipeline Connection) :
    (s.ask now heard).broker = s.broker.poll.1 ∧
        polled (s.ask now heard).marks = polled s.marks ++ records (brought s.broker.poll.2) ∨
      s.broker.Steady (s.ask now heard).broker ∧
        (s.ask now heard).broker.member.positions = s.broker.member.positions ∧
        polled (s.ask now heard).marks = polled s.marks := by
  rw [Pipeline.ask]
  split
  · exact .inr ⟨.refl _, rfl, rfl⟩
  · next q hq =>
      cases q with
      | poll wait =>
          refine .inl ⟨rfl, ?_⟩
          simp only [hear, reply_marks, reply_loop, polled_append]
          rcases hp : s.broker.poll with ⟨b', e | _ | r | p⟩ <;>
            simp [reply, Broker.poll, hp, Ingestion.marks, hq, polled, brought, Except.toOption, records]
      | offer batch =>
          refine .inr ⟨.refl _, rfl, ?_⟩
          rcases ho : s.queue.offer batch with ⟨q', _ | _ | _⟩ <;> simp [hear, reply, ho, Ingestion.marks, hq, polled]
      | aborted =>
          refine .inr ⟨.refl _, rfl, ?_⟩
          cases ha : s.listener.abortRequested <;> simp [hear, reply, ha, Ingestion.marks, hq, polled]
      | pause ps =>
          exact .inr ⟨steady_member ⟨rfl, rfl, rfl⟩, rfl, by simp [hear, reply, Ingestion.marks, hq, polled]⟩
      | resume ps =>
          exact .inr ⟨steady_member ⟨rfl, rfl, rfl⟩, rfl, by simp [hear, reply, Ingestion.marks, hq, polled]⟩
      | _ => exact .inr ⟨.refl _, rfl, by simp [hear, reply, Ingestion.marks, hq, polled]⟩

theorem completed_ask (s : Pipeline Connection) : completed (s.ask now heard).marks = completed s.marks := by
  rw [Pipeline.ask]
  split
  · rfl
  · have he := s.loop.events_marks
    simp [hear, Trace.completed, finished, he]

theorem ask_call (s : Pipeline Connection) :
    (s.ask now heard).call = s.call ∧ (s.ask now heard).tracker = s.tracker := by
  rw [Pipeline.ask]
  split <;> simp [hear]

theorem Reading.ask (h : Reading b s) (hs : Settling b s) (hf : b.cluster.Fits)
    (hd : ∀ n, (b.doneOf s.marks n).length ≤ (b.polledOf s.marks n).length) : Reading b (s.ask now heard) := by
  rcases ask_cases now heard s with ⟨hb, hm⟩ | ⟨hb, hp, hm⟩
  · exact h.poll (stands_flush h hs hd) hf hb hm
  · exact h.congr hb.toAlike hp hm

theorem Settling.ask (h : Settling b s) (hr : Reading b s)
    (hd : ∀ n, (b.doneOf s.marks n).length ≤ (b.polledOf s.marks n).length) : Settling b (s.ask now heard) := by
  have hb : s.broker.Steady (s.ask now heard).broker := by
    rcases ask_cases now heard s with ⟨hb, -⟩ | ⟨hb, -⟩
    · exact hb ▸ (poll_spec (stands_flush hr h hd)).1
    · exact hb
  obtain ⟨hc, ht⟩ := ask_call now heard s
  exact h.congr hb hc ht (completed_ask now heard s)

end Ask

end Pipeline

end StreamTrigger
