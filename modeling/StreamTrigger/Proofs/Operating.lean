import StreamTrigger.Proofs.Looking

namespace StreamTrigger

namespace Connection

def opened (topic group : String) (partitions : Int) (announcesEnds : Bool) : Connection :=
  ⟨Cluster.make topic partitions, { group := group, announcesEnds := announcesEnds }⟩

/-- Retention deletes what lies before an offset; a member may be made to fail, or to write what it has stored. -/
inductive Operation where
  | produce (p : Int) (value : Bytes)
  | truncate (p offset : Int)
  | setCommitted (group : String) (p offset : Int)
  | commit (ps : List Position)
  | store (q : Position)
  | flush
  | pause (ps : List Partition)
  | resume (ps : List Partition)
  | trouble (t : Trouble)
  | close
  | poll
deriving DecidableEq

def act (s : Connection) : Operation → Connection
  | .produce p value =>
      match s.cluster.produce p value with
      | .ok (c, _) => ⟨c, s.member⟩
      | .error _ => s
  | .truncate p offset =>
      match s.cluster.truncate p offset with
      | .ok c => ⟨c, s.member⟩
      | .error _ => s
  | .setCommitted group p offset => ⟨s.cluster.setCommitted group p offset, s.member⟩
  | .commit ps => (s.commit ps).1
  | .store q => s.store q
  | .flush => s.flush
  | .pause ps => s.pause ps
  | .resume ps => s.resume ps
  | .trouble t => ⟨s.cluster, { s.member with trouble := t }⟩
  | .close => s.close
  | .poll => s.poll.1

def run (s : Connection) (ops : List Operation) : Connection := ops.foldl act s

structure Step where
  before : Connection
  op : Operation

namespace Step

def after (x : Step) : Connection := x.before.act x.op

def event (x : Step) : Option PollEvent :=
  match x.op with
  | .poll => brought x.before.poll.2
  | _ => none

def took (n : Nat) (x : Step) : List Record := (records x.event).filter (fun r => r.partition.number = n)

end Step

def history (s : Connection) : List Operation → List Step
  | [] => []
  | op :: ops => ⟨s, op⟩ :: (s.act op).history ops

theorem history_append (s : Connection) (ops ops' : List Operation) :
    s.history (ops ++ ops') = s.history ops ++ (s.run ops).history ops' := by
  induction ops generalizing s with
  | nil => rfl
  | cons op ops ih => exact congrArg _ (ih (s.act op))

theorem run_cons (s : Connection) (op : Operation) (ops : List Operation) : s.run (op :: ops) = (s.act op).run ops := rfl

theorem run_append (s : Connection) (ops ops' : List Operation) : s.run (ops ++ ops') = (s.run ops).run ops' :=
  List.foldl_append ..

theorem history_concat (s : Connection) (ops : List Operation) (op : Operation) :
    s.history (ops ++ [op]) = s.history ops ++ [⟨s.run ops, op⟩] := s.history_append ops [op]

theorem run_concat (s : Connection) (ops : List Operation) (op : Operation) : s.run (ops ++ [op]) = (s.run ops).act op :=
  s.run_append ops [op]

def taken (n : Nat) (h : List Step) : List Record := h.flatMap (Step.took n)

@[simp] theorem taken_nil (n : Nat) : taken n [] = [] := rfl

@[simp] theorem taken_cons (n : Nat) (x : Step) (h : List Step) : taken n (x :: h) = x.took n ++ taken n h := rfl

@[simp] theorem taken_append (n : Nat) (h h' : List Step) : taken n (h ++ h') = taken n h ++ taken n h' :=
  List.flatMap_append

def Undelivered (s : Connection) (n : Nat) (o : Int) : Prop :=
  s.cluster.low n ≤ o ∧ o < s.cluster.high n ∧ s.place n ≤ o

theorem low_le_place (s : Connection) (n : Nat) : s.cluster.low n ≤ s.place n := Int.le_max_right ..

theorem exists_undelivered {s : Connection} {n : Nat} : (∃ o, s.Undelivered n o) ↔ s.place n < s.cluster.high n := by
  have hlow := s.low_le_place n
  constructor
  · rintro ⟨o, -, hhigh, hplace⟩
    omega
  · exact fun h => ⟨s.place n, hlow, h, Int.le_refl _⟩

theorem Undelivered.lt_size {s : Connection} {n : Nat} {o : Int} (h : s.Undelivered n o) : n < s.cluster.size := by
  obtain ⟨hlow, hhigh, -⟩ := h
  cases hl : s.cluster.logs[n]? with
  | none =>
      simp only [Cluster.low, Cluster.high, hl, Option.map_none, Option.getD_none] at hlow hhigh
      omega
  | some l => exact Cluster.lt_size hl

namespace Operation

def values (n : Nat) : Operation → List Bytes
  | .produce p value => if Cluster.index p = n then [value] else []
  | _ => []

def lower (n : Nat) (low : Int) : Operation → Int
  | .truncate p offset => if Cluster.index p = n then offset else low
  | _ => low

def holds (n : Nat) (held : Bool) : Operation → Bool
  | .pause ps => held || ps.any (fun p => p.number = n)
  | .resume ps => held && !ps.any (fun p => p.number = n)
  | _ => held

theorem lower_nonneg {n : Nat} {low : Int} {ops : List Operation} (hlow : 0 ≤ low)
    (hops : ∀ p offset, .truncate p offset ∈ ops → 0 ≤ offset) : 0 ≤ ops.foldl (fun low op => op.lower n low) low := by
  induction ops generalizing low with
  | nil => exact hlow
  | cons op ops ih =>
      refine ih ?_ (fun p offset h => hops p offset (List.mem_cons_of_mem op h))
      cases op <;> simp only [lower, hlow]
      split
      · exact hops _ _ List.mem_cons_self
      · exact hlow

end Operation

section Polls

variable {s s' : Connection} {e : Except BrokerError (Option PollEvent)}

theorem Polls.logs (h : Polls s s' e) : s'.cluster.logs = s.cluster.logs := by
  cases h with
  | failed _ h | closed _ h | idle _ h | record _ _ _ _ h | ended _ _ _ h => exact h.logs

theorem Polls.topic (h : Polls s s' e) : s'.cluster.topic = s.cluster.topic := by
  cases h with
  | failed _ h | closed _ h | idle _ h | record _ _ _ _ h | ended _ _ _ h => exact h.topic

theorem Polls.paused (h : Polls s s' e) : s'.member.paused = s.member.paused := by
  cases h with
  | failed _ h | closed _ h | idle _ h | record _ _ _ _ h | ended _ _ _ h => exact h.paused

theorem Polls.is_closed (h : Polls s s' e) : s'.member.closed = s.member.closed := by
  cases h with
  | failed _ h | closed _ h | idle _ h | record _ _ _ _ h | ended _ _ _ h => exact h.closed

end Polls

section Act

theorem log_eq {c : Cluster} {p : Int} {l : PartitionLog} : c.log p = .ok l ↔ c.logs[Cluster.index p]? = some l := by
  rw [Cluster.log]
  cases c.logs[Cluster.index p]? <;> simp

def amend (s : Connection) (p : Int) (f : PartitionLog → PartitionLog) : Connection :=
  match s.cluster.logs[Cluster.index p]? with
  | some l => ⟨s.cluster.setLog p (f l), s.member⟩
  | none => s

variable (s : Connection) (p : Int) (f : PartitionLog → PartitionLog) (op : Operation) (n : Nat)

theorem logs_amend :
    (s.amend p f).cluster.logs[n]? = s.cluster.logs[n]?.map (fun l => if Cluster.index p = n then f l else l) := by
  rw [amend]
  split
  · next l hl =>
      have hlt := (List.getElem?_eq_some_iff.mp hl).1
      rw [Cluster.setLog, List.getElem?_set]
      split <;> simp_all
  · next hl => by_cases hn : Cluster.index p = n <;> simp_all

@[simp] theorem topic_amend : (s.amend p f).cluster.topic = s.cluster.topic := by
  rw [amend]
  split <;> rfl

@[simp] theorem member_amend : (s.amend p f).member = s.member := by
  rw [amend]
  split <;> rfl

theorem act_produce (value : Bytes) :
    s.act (.produce p value) = s.amend p (fun l => { l with values := l.values ++ [value] }) := by
  rw [amend]
  split
  · next hl => simp [act, Cluster.produce, log_eq.mpr hl, bind, Except.bind, pure, Except.pure]
  · next hl => simp [act, Cluster.produce, Cluster.log, hl, bind, Except.bind]

theorem act_truncate (offset : Int) : s.act (.truncate p offset) = s.amend p (fun l => { l with low := offset }) := by
  rw [amend]
  split
  · next hl => simp [act, Cluster.truncate, log_eq.mpr hl, bind, Except.bind, pure, Except.pure]
  · next hl => simp [act, Cluster.truncate, Cluster.log, hl, bind, Except.bind]

theorem cluster_commit (ps : List Position) : ∃ es, (s.commit ps).1.cluster = s.cluster.setAll s.member.group es := by
  rw [commit]
  dsimp only
  split
  · exact ⟨[], rfl⟩
  · exact ⟨ps.map (fun q => (q.partition.number, q.offset)), by simp [Cluster.setAll, List.foldl_map]⟩

theorem member_commit (ps : List Position) :
    (s.commit ps).1.member = { s.member with commitCalls := s.member.commitCalls ++ [ps] } := by
  rw [commit]
  dsimp only
  split <;> rfl

theorem logs_act : (s.act op).cluster.logs[n]? =
    s.cluster.logs[n]?.map (fun l => { low := op.lower n l.low, values := l.values ++ op.values n }) := by
  cases op with
  | produce p value =>
      rw [act_produce, logs_amend]
      by_cases hn : Cluster.index p = n <;> simp [Operation.values, Operation.lower, hn]
  | truncate p offset =>
      rw [act_truncate, logs_amend]
      by_cases hn : Cluster.index p = n <;> simp [Operation.values, Operation.lower, hn]
  | commit ps =>
      obtain ⟨es, hes⟩ := s.cluster_commit ps
      simp [act, hes, Operation.values, Operation.lower]
  | poll => simp [act, s.polls.logs, Operation.values, Operation.lower]
  | flush => simp [act, logs_flush, Operation.values, Operation.lower]
  | close => simp [act, close, logs_flush, Operation.values, Operation.lower]
  | setCommitted | store | pause | resume | trouble =>
      simp [act, Cluster.setCommitted, store, pause, resume, Operation.values, Operation.lower]

@[simp] theorem size_act : (s.act op).cluster.size = s.cluster.size := by
  have h (n : Nat) : n < (s.act op).cluster.size ↔ n < s.cluster.size := by
    have hlogs := congrArg Option.isSome (s.logs_act op n)
    rwa [Option.isSome_map, Bool.eq_iff_iff, isSome_getElem?, isSome_getElem?] at hlogs
  have hle := h s.cluster.size
  have hge := h (s.act op).cluster.size
  omega

@[simp] theorem topic_act : (s.act op).cluster.topic = s.cluster.topic := by
  cases op with
  | produce p value => simp [act_produce]
  | truncate p offset => simp [act_truncate]
  | commit ps =>
      obtain ⟨es, hes⟩ := s.cluster_commit ps
      simp [act, hes]
  | poll => exact s.polls.topic
  | flush | close => simp [act, close, flush_cluster]
  | setCommitted | store | pause | resume | trouble => rfl

theorem mem_pauses {k : Int} (ps : List Partition) (ns : List Int) :
    k ∈ ps.foldl (fun l p => if l.contains p.number then l else l ++ [p.number]) ns ↔ k ∈ ns ∨ ∃ p ∈ ps, p.number = k := by
  induction ps generalizing ns with
  | nil => simp
  | cons p ps ih =>
      have hput : k ∈ (if ns.contains p.number then ns else ns ++ [p.number]) ↔ k ∈ ns ∨ p.number = k := by
        by_cases hp : p.number ∈ ns
        · simp only [List.contains_iff_mem, if_pos hp]
          exact ⟨.inl, fun h => h.elim id (fun h => h ▸ hp)⟩
        · simp [hp, eq_comm]
      rw [List.foldl_cons, ih, hput]
      simp [or_assoc]

theorem paused_act : (n : Int) ∈ (s.act op).member.paused ↔ op.holds n (decide ((n : Int) ∈ s.member.paused)) := by
  cases op with
  | produce p value => simp [act_produce, Operation.holds]
  | truncate p offset => simp [act_truncate, Operation.holds]
  | commit ps => simp [act, member_commit, Operation.holds]
  | poll => simp [act, s.polls.paused, Operation.holds]
  | pause ps =>
      simp only [act, pause, mem_pauses]
      simp [Operation.holds]
  | resume ps => simp [act, resume, Operation.holds]
  | setCommitted | store | flush | close | trouble => simp [act, store, flush, close, Operation.holds]

theorem closed_act : (s.act op).member.closed ↔ s.member.closed ∨ op = .close := by
  cases op with
  | produce p value => simp [act_produce]
  | truncate p offset => simp [act_truncate]
  | commit ps => simp [act, member_commit]
  | poll => simp [act, s.polls.is_closed]
  | close => simp [act, close]
  | setCommitted | store | flush | pause | resume | trouble => simp [act, store, flush, pause, resume]

theorem unmoved_act (h : op ≠ .poll) : (s.act op).member.positions = s.member.positions ∧
    (s.act op).member.next = s.member.next ∧ (s.act op).member.ended = s.member.ended := by
  cases op with
  | produce p value => simp [act_produce]
  | truncate p offset => simp [act_truncate]
  | commit ps => simp [act, member_commit]
  | poll => exact absurd rfl h
  | setCommitted | store | flush | pause | resume | trouble | close => exact ⟨rfl, rfl, rfl⟩

end Act

theorem Looks.position {s s' : Connection} (h : Looks s s') (n : Nat) :
    s'.member.positions.get? n = s.member.positions.get? n ∨
      n < s.cluster.size ∧ s'.member.positions.get? n = some (s.place n) := by
  rcases h.positions n with hn | ⟨k, hk, hlt, hn⟩
  · exact .inl hn
  · obtain rfl : n = k := Int.ofNat_inj.mp hk
    exact .inr ⟨hlt, hn⟩

namespace Step

variable {x : Step} {n : Nat}

theorem exists_polls (h : x.op = .poll) : ∃ s' e, x.after = s' ∧ x.event = brought e ∧ Polls x.before s' e := by
  rw [after, event, h]
  exact ⟨_, _, rfl, rfl, x.before.polls⟩

theorem event_idle (h : x.op ≠ .poll) : x.event = none := by
  rw [event]
  split
  · next hop => exact absurd hop h
  · rfl

theorem took_record {r : Record} (h : x.event = some (.record r)) :
    x.took n = if r.partition.number = n then [r] else [] := by
  simp [took, h, records, List.filter_cons]

theorem took_eq_nil_iff {r : Record} (h : x.event = some (.record r)) : x.took n = [] ↔ r.partition.number ≠ n := by
  rw [took_record h]
  split <;> simp_all

theorem took_other {k : Nat} (h : x.took n ≠ []) (hk : k ≠ n) : x.took k = [] := by
  cases he : x.event with
  | none => simp [took, he, records]
  | some e =>
      cases e with
      | endOfPartition p => simp [took, he, records]
      | record r =>
          rw [ne_eq, took_eq_nil_iff he, not_not] at h
          exact (took_eq_nil_iff he).mpr (fun hr => hk (Int.ofNat_inj.mp (hr.symm.trans h)))

theorem took_eq {e : Option PollEvent} (h : x.event = e) :
    x.took n = (records e).filter (fun (r : Record) => r.partition.number = n) := by rw [took, h]

inductive Touches (n : Nat) (x : Step) : Prop
  | leaves (hp : x.after.member.positions.get? n = x.before.member.positions.get? n) (ht : x.took n = [])
  | looks (hop : x.op = .poll) (hn : n < x.before.cluster.size)
      (hp : x.after.member.positions.get? n = some (x.before.place n)) (ht : x.took n = [])
  | reads (r : Record) (hop : x.op = .poll) (hn : n < x.before.cluster.size)
      (hp : x.after.member.positions.get? n = some (x.before.place n + 1))
      (hnext : x.after.member.next = (n + 1) % x.before.cluster.size) (ht : x.took n = [r]) (hr : r.offset = x.before.place n)

theorem Touches.of_looks {s' : Connection} (h : Looks x.before s') (hop : x.op = .poll)
    (hp : x.after.member.positions.get? n = s'.member.positions.get? n) (ht : x.took n = []) : x.Touches n := by
  rcases h.position n with hn | ⟨hlt, hn⟩
  · exact .leaves (hp.trans hn) ht
  · exact .looks hop hlt (hp.trans hn) ht

theorem touches (x : Step) (n : Nat) : x.Touches n := by
  by_cases hop : x.op = .poll
  · obtain ⟨s', e, hafter, hevent, hpolls⟩ := x.exists_polls hop
    cases hpolls with
    | failed _ h | closed _ h | idle _ h => exact .of_looks h hop (by rw [hafter]) (took_eq hevent)
    | @record s' k l hc hturn hl hlt h =>
        by_cases hk : k = n
        · subst hk
          exact .reads _ hop (Cluster.lt_size hl) (by simp [hafter]) (by rw [hafter]) ((took_record hevent).trans (if_pos rfl)) rfl
        · have hk' : (k : Int) ≠ n := by omega
          exact .of_looks h hop (by simp [hafter, hk']) ((took_record hevent).trans (if_neg hk'))
    | @ended s' k hc hlt hm h =>
        by_cases hk : k = n
        · subst hk
          exact .looks hop hlt (by simp [hafter]) (took_eq hevent)
        · have hk' : (k : Int) ≠ n := by omega
          exact .of_looks h hop (by simp [hafter, hk']) (took_eq hevent)
  · refine .leaves ?_ (took_eq (event_idle hop))
    rw [after, (x.before.unmoved_act x.op hop).1]

theorem ended_noted {p : Partition} (he : x.event = some (.endOfPartition p)) (hp : p.number = n) :
    (n : Int) ∈ x.after.member.ended := by
  by_cases hop : x.op = .poll
  · obtain ⟨s', e, hafter, hevent, hpolls⟩ := x.exists_polls hop
    rw [hafter]
    rw [hevent] at he
    cases hpolls with
    | failed | closed | idle | record => simp [brought, Except.toOption] at he
    | @ended s' k hc hlt hm h =>
        obtain rfl : x.before.cluster.partition k = p := by simpa [brought, Except.toOption] using he
        simp [← hp, Cluster.partition]
  · simp [event_idle hop] at he

theorem ended_stays (h : (n : Int) ∈ x.before.member.ended) (ht : x.took n = []) : (n : Int) ∈ x.after.member.ended := by
  by_cases hop : x.op = .poll
  · obtain ⟨s', e, hafter, hevent, hpolls⟩ := x.exists_polls hop
    rw [hafter]
    cases hpolls with
    | failed _ hs | closed _ hs | idle _ hs => rwa [hs.ended]
    | @record s' k l hc hturn hl hlt hs =>
        have hk : (n : Int) ≠ k := Ne.symm ((took_eq_nil_iff hevent).mp ht)
        simp [hs.ended, h, hk]
    | @ended s' k hc hlt hm hs => simp [hs.ended, h]
  · rwa [after, (x.before.unmoved_act x.op hop).2.2]

end Step

section Run

variable (s : Connection) (ops : List Operation) (n : Nat)

@[simp] theorem size_run : (s.run ops).cluster.size = s.cluster.size := by
  induction ops generalizing s with
  | nil => rfl
  | cons op ops ih => exact (ih (s.act op)).trans (s.size_act op)

@[simp] theorem topic_run : (s.run ops).cluster.topic = s.cluster.topic := by
  induction ops generalizing s with
  | nil => rfl
  | cons op ops ih => exact (ih (s.act op)).trans (s.topic_act op)

theorem logs_run : (s.run ops).cluster.logs[n]? = s.cluster.logs[n]?.map (fun l =>
    { low := ops.foldl (fun low op => op.lower n low) l.low, values := l.values ++ ops.flatMap (Operation.values n) }) := by
  induction ops generalizing s with
  | nil => simp [run]
  | cons op ops ih =>
      have h := ih (s.act op)
      rw [logs_act, Option.map_map] at h
      rw [run_cons]
      simpa [Function.comp_def] using h

theorem paused_run : (n : Int) ∈ (s.run ops).member.paused ↔
    ops.foldl (fun held op => op.holds n held) (decide ((n : Int) ∈ s.member.paused)) := by
  induction ops generalizing s with
  | nil => simp [run]
  | cons op ops ih =>
      have hact : op.holds n (decide ((n : Int) ∈ s.member.paused)) = decide ((n : Int) ∈ (s.act op).member.paused) := by
        rw [Bool.eq_iff_iff, decide_eq_true_iff]
        exact (s.paused_act op n).symm
      rw [List.foldl_cons, hact]
      exact ih (s.act op)

theorem closed_run : (s.run ops).member.closed ↔ s.member.closed ∨ .close ∈ ops := by
  induction ops generalizing s with
  | nil => simp [run]
  | cons op ops ih =>
      rw [List.mem_cons, ← or_assoc, eq_comm (a := Operation.close), ← closed_act]
      exact ih (s.act op)

end Run

end Connection

end StreamTrigger
