import StreamTrigger.Proofs.Grouping
import StreamTrigger.Rehearsal.Cluster

namespace StreamTrigger

namespace Cluster

def setAll (c : Cluster) (group : String) (es : List (Int × Int)) : Cluster :=
  es.foldl (fun c e => c.setCommitted group e.1 e.2) c

variable (c : Cluster) (group : String) (es : List (Int × Int))

@[simp] theorem setAll_topic : (c.setAll group es).topic = c.topic := by
  induction es generalizing c with
  | nil => rfl
  | cons e es ih => exact ih _

@[simp] theorem setAll_logs : (c.setAll group es).logs = c.logs := by
  induction es generalizing c with
  | nil => rfl
  | cons e es ih => exact ih _

variable {c group es}

theorem committed_setCommitted (n m v : Int) :
    (c.setCommitted group n v).committed? group m = if n = m then some v else c.committed? group m := by
  simp [setCommitted, committed?]

theorem committed_setAll_of_notMem {n : Int} (h : n ∉ es.map Prod.fst) :
    (c.setAll group es).committed? group n = c.committed? group n := by
  induction es generalizing c with
  | nil => rfl
  | cons e es ih =>
      simp only [List.map_cons, List.mem_cons, not_or] at h
      rw [setAll, List.foldl_cons]
      exact (ih h.2).trans (by simp [committed_setCommitted, Ne.symm h.1])

theorem committed_setAll {n v : Int} (hv : ∀ e ∈ es, e.1 = n → e.2 = v) (h : n ∈ es.map Prod.fst) :
    (c.setAll group es).committed? group n = some v := by
  induction es generalizing c with
  | nil => simp at h
  | cons e es ih =>
      obtain ⟨he, hes⟩ := List.forall_mem_cons.mp hv
      rw [setAll, List.foldl_cons]
      by_cases hn : n ∈ es.map Prod.fst
      · exact ih hes hn
      · have hen : e.1 = n := by simpa [hn, eq_comm] using h
        exact (committed_setAll_of_notMem hn).trans (by simp [committed_setCommitted, hen, he hen])

def low (c : Cluster) (n : Nat) : Int := (c.logs[n]?.map PartitionLog.low).getD 0

/-- Where a member begins that reads for a group: at what the group has committed, or at the low mark where there is
no commit or retention has overtaken it. -/
def resumeAt (c : Cluster) (group : String) (n : Nat) : Int := max ((c.committed? group n).getD (c.low n)) (c.low n)

structure Fits (c : Cluster) : Prop where
  low : ∀ l ∈ c.logs, Word.least ≤ l.low
  high : ∀ l ∈ c.logs, l.high ≤ Word.greatest

end Cluster

namespace Member

/-- A member that has read nothing yet, and whose commits are not made to fail. -/
structure Fresh (m : Member) : Prop where
  positions : ∀ n, m.positions.get? n = none
  stored : ∀ n, m.stored.get? n = none
  commits : m.trouble.commits = false

theorem Fresh.position {m : Member} (h : m.Fresh) {c : Cluster} {n : Nat} {l : PartitionLog} (hl : c.logs[n]? = some l) :
    m.position c n l = c.resumeAt m.group n := by
  simp [Member.position, Cluster.resumeAt, Cluster.low, h.positions, hl]

structure Stands (m : Member) (c : Cluster) (first pos : Nat → Int) : Prop where
  here : ∀ (n : Nat) l, c.logs[n]? = some l → m.position c n l = pos n
  seen : ∀ n : Nat, m.positions.get? n = some (pos n) ∨ m.positions.get? n = none ∧ pos n = first n

def advanced (pos : Nat → Int) (c : Cluster) (e : Option PollEvent) (n : Nat) : Int :=
  match e with
  | some (.record r) => if r.partition = c.partition n then pos n + 1 else pos n
  | _ => pos n

def ReadAt (c : Cluster) (pos : Nat → Int) (r : Record) (n : Nat) : Prop :=
  ∃ l, c.logs[n]? = some l ∧ r.partition = c.partition n ∧ r.offset = pos n ∧ pos n < l.high

theorem partition_inj {c : Cluster} {n k : Nat} : c.partition n = c.partition k ↔ n = k :=
  ⟨fun h => Int.ofNat_inj.mp (congrArg Partition.number h), fun h => h ▸ rfl⟩

variable {m : Member} {c : Cluster} {first pos : Nat → Int}

theorem advanced_record {r : Record} {n : Nat} (hr : r.partition = c.partition n) (k : Nat) :
    advanced pos c (some (.record r)) k = if n = k then pos k + 1 else pos k := by
  simp [advanced, hr, partition_inj]

theorem low_le_position (m : Member) (c : Cluster) (n : Int) (l : PartitionLog) : l.low ≤ m.position c n l :=
  Int.le_max_right ..

theorem Stands.insert (h : Stands m c first pos) {n : Nat} {l : PartitionLog} (hl : c.logs[n]? = some l) {m' : Member}
    (hg : m'.group = m.group) {v : Int} (hp : m'.positions = m.positions.insert n v) (hv : l.low ≤ v) {pos' : Nat → Int}
    (hn : pos' n = v) (hpos : ∀ k, n ≠ k → pos' k = pos k) : Stands m' c first pos' := by
  constructor
  · intro k l' hl'
    by_cases hk : n = k
    · subst hk
      obtain rfl : l = l' := by simpa [hl] using hl'
      have hm : m'.position c n l = max v l.low := by simp [Member.position, hp]
      omega
    · have hk' : (n : Int) ≠ k := by omega
      simp only [Member.position, hp, hg, Table.get?_insert, if_neg hk', hpos k hk]
      exact h.here k l' hl'
  · intro k
    by_cases hk : n = k
    · subst hk
      exact .inl (by simp [hp, hn])
    · have hk' : (n : Int) ≠ k := by omega
      simpa only [hp, Table.get?_insert, if_neg hk', hpos k hk] using h.seen k

structure Keeps (m m' : Member) : Prop where
  group : m'.group = m.group
  stored : m'.stored = m.stored
  commits : m'.trouble.commits = m.trouble.commits

theorem Keeps.refl (m : Member) : Keeps m m := ⟨rfl, rfl, rfl⟩

theorem Keeps.trans {m₁ m₂ m₃ : Member} (h : Keeps m₁ m₂) (h' : Keeps m₂ m₃) : Keeps m₁ m₃ :=
  ⟨h'.group.trans h.group, h'.stored.trans h.stored, h'.commits.trans h.commits⟩

theorem visit_spec (h : Stands m c first pos) {n : Nat} {l : PartitionLog} (hl : c.logs[n]? = some l) :
    Keeps m (m.visit c n l).1 ∧ Stands (m.visit c n l).1 c first (advanced pos c (m.visit c n l).2) ∧
      ∀ r, (m.visit c n l).2 = some (.record r) → ReadAt c pos r n := by
  have hlow := low_le_position m c n l
  have hn := h.here n l hl
  rw [visit]
  dsimp only
  split
  · next hlt =>
      refine ⟨⟨rfl, rfl, rfl⟩, ?_, fun r hr => ?_⟩
      · have hread : l.low ≤ m.position c n l + 1 := by omega
        refine h.insert hl ?_ ?_ hread ?_ ?_
        · rfl
        · rfl
        · rw [advanced_record rfl, if_pos rfl, hn]
        · intro k hk
          rw [advanced_record rfl, if_neg hk]
      · simp only [Option.some.injEq, PollEvent.record.injEq] at hr
        subst hr
        exact ⟨l, hl, rfl, hn, hn ▸ hlt⟩
  · split
    · refine ⟨⟨rfl, rfl, rfl⟩, ?_, by simp⟩
      refine h.insert hl ?_ ?_ hlow hn.symm (fun _ _ => rfl) <;> rfl
    · refine ⟨⟨rfl, rfl, rfl⟩, ?_, by simp⟩
      refine h.insert hl ?_ ?_ hlow hn.symm (fun _ _ => rfl) <;> rfl

theorem scan_spec (h : Stands m c first pos) (ps : List Nat) :
    Keeps m (m.scan c ps).1 ∧ Stands (m.scan c ps).1 c first (advanced pos c (m.scan c ps).2) ∧
      ∀ r, (m.scan c ps).2 = some (.record r) → ∃ n, ReadAt c pos r n := by
  induction ps generalizing m with
  | nil => exact ⟨.refl m, h, by simp [scan]⟩
  | cons p ps ih =>
      rw [scan]
      split
      · exact ih h
      · split
        · exact ih h
        · next l hl =>
            obtain ⟨hk, hs, hr⟩ := visit_spec h hl
            split
            · next m' e hv =>
                rw [hv] at hk hs hr
                exact ⟨hk, hs, fun r he => ⟨p, hr r he⟩⟩
            · next m' hv =>
                rw [hv] at hk hs
                obtain ⟨hk', hs', hr'⟩ := ih hs
                exact ⟨hk.trans hk', hs', hr'⟩

end Member

namespace Connection

/-- What the group will have committed when all that is stored is committed. -/
def promised (s : Connection) (n : Int) : Option Int :=
  (s.member.stored.get? n).or (s.cluster.committed? s.member.group n)

theorem flush_cluster (s : Connection) :
    s.flush.cluster = s.cluster.setAll s.member.group s.member.stored.entries := rfl

theorem committed_flush (s : Connection) (n : Int) :
    s.flush.cluster.committed? s.member.group n = s.promised n := by
  rw [flush_cluster, promised]
  cases hs : s.member.stored.get? n with
  | none =>
      apply Cluster.committed_setAll_of_notMem
      intro hm
      obtain ⟨⟨j, v⟩, he, rfl⟩ := List.mem_map.mp hm
      simp [Table.mem_entries.mp he] at hs
  | some v =>
      have hm := Table.mem_entries.mpr hs
      refine Cluster.committed_setAll (fun e he hn => ?_) (List.mem_map.mpr ⟨(n, v), hm, rfl⟩)
      have hv := Table.mem_entries.mp (show (e.1, e.2) ∈ s.member.stored.entries from he)
      simpa [hn, hs, eq_comm] using hv

theorem promised_flush (s : Connection) (n : Int) : s.flush.promised n = s.promised n := by
  have h : s.flush.member.stored.get? n = none := rfl
  rw [promised, h, Option.none_or]
  exact s.committed_flush n

theorem promised_store (s : Connection) (q : Position) (n : Int) :
    (s.store q).promised n = if q.partition.number = n then some q.offset else s.promised n := by
  by_cases h : q.partition.number = n <;> simp [promised, store, h]

/-- The same member of the same group, and nothing taken away below it. -/
structure Alike (s s' : Connection) : Prop where
  group : s'.member.group = s.member.group
  commits : s'.member.trouble.commits = s.member.trouble.commits
  topic : s'.cluster.topic = s.cluster.topic
  lows : s'.cluster.logs.map PartitionLog.low = s.cluster.logs.map PartitionLog.low
  fits : s.cluster.Fits → s'.cluster.Fits

theorem Alike.refl (s : Connection) : Alike s s := ⟨rfl, rfl, rfl, rfl, id⟩

theorem Alike.trans {b₁ b₂ b₃ : Connection} (h : Alike b₁ b₂) (h' : Alike b₂ b₃) : Alike b₁ b₃ where
  group := h'.group.trans h.group
  commits := h'.commits.trans h.commits
  topic := h'.topic.trans h.topic
  lows := h'.lows.trans h.lows
  fits hf := h'.fits (h.fits hf)

theorem Alike.partition {b b' : Connection} (h : Alike b b') (n : Int) : b'.cluster.partition n = b.cluster.partition n := by
  simp [Cluster.partition, h.topic]

theorem Alike.low {b b' : Connection} (h : Alike b b') (n : Nat) : b'.cluster.low n = b.cluster.low n := by
  have hl := congrArg (fun ls => ls[n]?) h.lows
  simp only [List.getElem?_map] at hl
  simp [Cluster.low, hl]

theorem Alike.size {b b' : Connection} (h : Alike b b') : b'.cluster.size = b.cluster.size := by
  simpa [Cluster.size] using congrArg List.length h.lows

theorem low_of_log {b : Connection} {n : Nat} {l : PartitionLog} (h : b.cluster.logs[n]? = some l) :
    b.cluster.low n = l.low := by simp [Cluster.low, h]

theorem alike_store (s : Connection) (q : Position) : Alike s (s.store q) := ⟨rfl, rfl, rfl, rfl, id⟩

theorem commit_eq {s : Connection} (h : s.member.trouble.commits = false) (ps : List Position) :
    (s.commit ps).1 = ⟨s.cluster.setAll s.member.group (ps.map (fun q => (q.partition.number, q.offset))),
      { s.member with commitCalls := s.member.commitCalls ++ [ps] }⟩ := by
  simp [commit, h, Cluster.setAll, List.foldl_map]

theorem alike_commit {s : Connection} (h : s.member.trouble.commits = false) (ps : List Position) :
    Alike s (s.commit ps).1 := by
  rw [commit_eq h]
  exact ⟨rfl, rfl, by simp, by simp, fun hf => ⟨by simpa using hf.low, by simpa using hf.high⟩⟩

theorem promised_commit {s : Connection} (hs : ∀ n, s.member.stored.get? n = none) (h : s.member.trouble.commits = false)
    (ps : List Position) {n v : Int} (hv : ∀ q ∈ ps, q.partition.number = n → q.offset = v) :
    (s.commit ps).1.promised n = if n ∈ ps.map (fun q => q.partition.number) then some v else s.promised n := by
  rw [commit_eq h]
  simp only [promised, hs, Option.none_or]
  split
  · next hn => exact Cluster.committed_setAll (by simpa using hv) (by simpa using hn)
  · next hn => exact Cluster.committed_setAll_of_notMem (by simpa using hn)

/-- And nothing committed for the group, but for what was stored. -/
structure Steady (s s' : Connection) : Prop extends Alike s s' where
  promised : ∀ n, s'.promised n = s.promised n
  stored : (∀ n, s.member.stored.get? n = none) → ∀ n, s'.member.stored.get? n = none

theorem Steady.refl (s : Connection) : Steady s s := ⟨.refl s, fun _ => rfl, id⟩

theorem steady_flush (s : Connection) : Steady s s.flush where
  group := rfl
  commits := rfl
  topic := by simp [flush_cluster]
  lows := by simp [flush_cluster]
  fits h := ⟨by simpa [flush_cluster] using h.low, by simpa [flush_cluster] using h.high⟩
  promised := s.promised_flush
  stored _ _ := rfl

theorem steady_member {s : Connection} {m : Member} (h : s.member.Keeps m) : Steady s ⟨s.cluster, m⟩ where
  group := h.group
  commits := h.commits
  topic := rfl
  lows := rfl
  fits := id
  promised n := by simp [promised, h.group, h.stored]
  stored hs n := by simpa [h.stored] using hs n

theorem Steady.trans {s₁ s₂ s₃ : Connection} (h : Steady s₁ s₂) (h' : Steady s₂ s₃) : Steady s₁ s₃ where
  toAlike := h.toAlike.trans h'.toAlike
  promised n := (h'.promised n).trans (h.promised n)
  stored hs := h'.stored (h.stored hs)

def brought (reply : Except BrokerError (Option PollEvent)) : Option PollEvent := reply.toOption.join

def records (e : Option PollEvent) : List Record :=
  match e with
  | some (.record r) => [r]
  | _ => []

theorem mem_records {e : Option PollEvent} {r : Record} : r ∈ records e ↔ e = some (.record r) := by
  rcases e with _ | r' | p <;> simp [records, eq_comm]

theorem records_eq {e : Option PollEvent} {r : Record} (h : e = some (.record r)) : records e = [r] := by rw [h]; rfl

theorem poll_spec {s : Connection} {first pos : Nat → Int} (h : s.flush.member.Stands s.flush.cluster first pos) :
    Steady s s.poll.1 ∧
      (∀ n : Nat, s.poll.1.member.positions.get? n = some (Member.advanced pos s.cluster (brought s.poll.2) n) ∨
        s.poll.1.member.positions.get? n = none ∧ Member.advanced pos s.cluster (brought s.poll.2) n = first n) ∧
      ∀ r, brought s.poll.2 = some (.record r) → ∃ n, Member.ReadAt s.cluster pos r n := by
  have hlogs : s.flush.cluster.logs = s.cluster.logs := by simp [flush_cluster]
  have htopic : s.flush.cluster.topic = s.cluster.topic := by simp [flush_cluster]
  rw [poll]
  split
  · exact ⟨steady_member ⟨rfl, rfl, rfl⟩, h.seen, by simp [brought, Except.toOption]⟩
  · dsimp only
    split
    · exact ⟨s.steady_flush, h.seen, by simp [brought, Except.toOption]⟩
    · obtain ⟨hk, hs, hr⟩ := Member.scan_spec h (s.flush.member.round s.flush.cluster)
      generalize s.flush.member.scan s.flush.cluster (s.flush.member.round s.flush.cluster) = me at hk hs hr
      obtain ⟨m, e⟩ := me
      have he : Member.advanced pos s.flush.cluster e = Member.advanced pos s.cluster e := by
        funext n
        unfold Member.advanced Cluster.partition
        rw [htopic]
      refine ⟨s.steady_flush.trans (steady_member hk), fun n => ?_, fun r hb => ?_⟩
      · simpa [brought, Except.toOption, he] using hs.seen n
      · obtain ⟨n, l, hl, hp, ho⟩ := hr r (by simpa [brought, Except.toOption] using hb)
        exact ⟨n, l, by rwa [← hlogs], by rwa [Cluster.partition, htopic] at hp, ho⟩

theorem steady_close (s : Connection) : Steady s s.close :=
  s.steady_flush.trans (steady_member ⟨rfl, rfl, rfl⟩)

theorem committed_close (s : Connection) (n : Int) :
    s.close.cluster.committed? s.member.group n = s.promised n := s.committed_flush n

/-- What others may do while a member reads: anything but to commit for its group, to delete what it could still read,
or to move it in its partitions. -/
def Bystander (f : Connection → Connection) : Prop :=
  ∀ s, Steady s (f s) ∧ (f s).member.positions = s.member.positions

def arrive (p : Int) (value : Bytes) (s : Connection) : Connection :=
  match s.cluster.log p, s.cluster.produce p value with
  | .ok l, .ok (c, _) => if l.high < Word.greatest then ⟨c, s.member⟩ else s
  | _, _ => s

theorem map_set_eq {α γ : Type} (f : α → γ) {xs : List α} {i : Nat} {x y : α} (hx : xs[i]? = some x) (hf : f y = f x) :
    (xs.set i y).map f = xs.map f := by
  obtain ⟨hi, rfl⟩ := List.getElem?_eq_some_iff.mp hx
  rw [List.map_set, hf, ← List.getElem_map f (h := by simpa using hi), List.set_getElem_self]

theorem bystander_arrive (p : Int) (value : Bytes) : Bystander (arrive p value) := by
  intro s
  rw [arrive]
  split
  · next l c o hl hc =>
      split
      · next hroom =>
          have hlog : s.cluster.logs[Cluster.index p]? = some l := by
            rw [Cluster.log] at hl
            split at hl
            · simp_all
            · simp at hl
          have hcluster : c = s.cluster.setLog p { l with values := l.values ++ [value] } := by
            simp only [Cluster.produce, hl, bind, Except.bind, pure, Except.pure, Except.ok.injEq, Prod.mk.injEq] at hc
            exact hc.1.symm
          subst hcluster
          refine ⟨⟨⟨rfl, rfl, rfl, map_set_eq _ hlog rfl, fun hf => ⟨fun k hk => ?_, fun k hk => ?_⟩⟩, fun _ => rfl, id⟩, rfl⟩
          · rcases List.mem_or_eq_of_mem_set hk with hk | rfl
            · exact hf.low k hk
            · exact hf.low l (List.mem_of_getElem? hlog)
          · rcases List.mem_or_eq_of_mem_set hk with hk | rfl
            · exact hf.high k hk
            · simp only [PartitionLog.high, List.length_append, List.length_singleton] at hroom ⊢
              omega
      · exact ⟨.refl s, rfl⟩
  · exact ⟨.refl s, rfl⟩

end Connection

end StreamTrigger
