import StreamTrigger.Proofs.Membership

namespace StreamTrigger

namespace Cluster

def high (c : Cluster) (n : Nat) : Int := (c.logs[n]?.map PartitionLog.high).getD 0

variable {c : Cluster} {n : Nat} {l : PartitionLog}

theorem low_eq (h : c.logs[n]? = some l) : c.low n = l.low := by simp [low, h]

theorem high_eq (h : c.logs[n]? = some l) : c.high n = l.high := by simp [high, h]

theorem lt_size (h : c.logs[n]? = some l) : n < c.size := (List.getElem?_eq_some_iff.mp h).1

theorem exists_log (h : n < c.size) : ∃ l, c.logs[n]? = some l := ⟨_, List.getElem?_eq_getElem h⟩

end Cluster

namespace Member

variable {m m₁ m₂ : Member} {c : Cluster} {n : Nat} {l : PartitionLog}

structure Looked (c : Cluster) (m m' : Member) : Prop where
  same : m' = { m with positions := m'.positions }
  positions : ∀ n : Int, m'.positions.get? n = m.positions.get? n ∨
    ∃ (k : Nat) (l : PartitionLog), n = k ∧ c.logs[k]? = some l ∧ m'.positions.get? n = some (m.position c k l)

theorem Looked.refl (c : Cluster) (m : Member) : Looked c m m := ⟨rfl, fun _ => .inl rfl⟩

theorem Looked.position (h : Looked c m m₁) (hl : c.logs[n]? = some l) : m₁.position c n l = m.position c n l := by
  have hgroup : m₁.group = m.group := by rw [h.same]
  have hlow := low_le_position m c n l
  rcases h.positions n with hn | ⟨k, l', hk, hl', hn⟩
  · simp only [Member.position, hn, hgroup]
  · obtain rfl : n = k := Int.ofNat_inj.mp hk
    obtain rfl : l = l' := by simpa [hl] using hl'
    rw [Member.position, hn, Option.getD_some]
    omega

theorem Looked.trans (h : Looked c m m₁) (h' : Looked c m₁ m₂) : Looked c m m₂ where
  same := by rw [h'.same, h.same]
  positions n := by
    rcases h'.positions n with hn | ⟨k, l, hk, hl, hn⟩
    · rw [hn]
      exact h.positions n
    · exact .inr ⟨k, l, hk, hl, h.position hl ▸ hn⟩

def Exhausted (m : Member) (c : Cluster) (n : Nat) : Prop :=
  (n : Int) ∉ m.paused → ∀ l, c.logs[n]? = some l → l.high ≤ m.position c n l

theorem Looked.exhausted (h : Looked c m m₁) (hn : Exhausted m₁ c n) : Exhausted m c n := by
  intro hp l hl
  have hpaused : m₁.paused = m.paused := by rw [h.same]
  exact h.position hl ▸ hn (hpaused ▸ hp) l hl

inductive Visits (m : Member) (c : Cluster) (n : Nat) (l : PartitionLog) : Member × Option PollEvent → Prop
  | nothing {m' : Member} (h : l.high ≤ m.position c n l) (hm : Looked c m m') : Visits m c n l (m', none)
  | record (h : m.position c n l < l.high) : Visits m c n l
      ({ m with
          positions := m.positions.insert n (m.position c n l + 1)
          next := (n + 1) % c.size
          ended := m.ended.filter (fun q => q ≠ n) },
        some (.record (.consumed (c.partition n) (m.position c n l) 0 none (l.value? (m.position c n l)) [])))
  | ended (h : l.high ≤ m.position c n l) (hn : (n : Int) ∉ m.ended) : Visits m c n l
      ({ m with positions := m.positions.insert n (m.position c n l), ended := n :: m.ended },
        some (.endOfPartition (c.partition n)))

theorem visits (m : Member) (hl : c.logs[n]? = some l) : Visits m c n l (m.visit c n l) := by
  rw [visit]
  dsimp only
  split
  · next h => exact .record h
  · next h =>
      have hhigh : l.high ≤ m.position c n l := by omega
      split
      · next ha => exact .ended hhigh (by simp_all)
      · refine .nothing hhigh ⟨rfl, fun k => ?_⟩
        simp only [Table.get?_insert]
        split
        · next hk => exact .inr ⟨n, l, hk.symm, hl, rfl⟩
        · exact .inl rfl

/-- A scan goes past exhausted partitions, to the first that brings something if there is one. -/
inductive Scans (m : Member) (c : Cluster) (ps : List Nat) : Member × Option PollEvent → Prop
  | nothing {m₁ : Member} (hm : Looked c m m₁) (h : ∀ k ∈ ps, Exhausted m c k) : Scans m c ps (m₁, none)
  | stops {m₁ : Member} {qs qs' : List Nat} {n : Nat} {l : PartitionLog} {e : Member × Option PollEvent}
      (hm : Looked c m m₁) (hps : ps = qs ++ n :: qs') (h : ∀ k ∈ qs, Exhausted m c k) (hn : (n : Int) ∉ m.paused)
      (hl : c.logs[n]? = some l) (hv : Visits m₁ c n l e) (he : e.2.isSome) : Scans m c ps e

theorem Scans.past {m' : Member} {p : Nat} {ps : List Nat} {e : Member × Option PollEvent} (hm : Looked c m m')
    (hp : Exhausted m c p) (h : Scans m' c ps e) : Scans m c (p :: ps) e := by
  cases h with
  | nothing hm₁ h =>
      exact .nothing (hm.trans hm₁) (List.forall_mem_cons.mpr ⟨hp, fun k hk => hm.exhausted (h k hk)⟩)
  | @stops m₁ qs qs' n l e hm₁ hps h hn hl hv he =>
      have hpaused : m'.paused = m.paused := by rw [hm.same]
      exact .stops (hm.trans hm₁) (congrArg (p :: ·) hps)
        (List.forall_mem_cons.mpr ⟨hp, fun k hk => hm.exhausted (h k hk)⟩) (hpaused ▸ hn) hl hv he

theorem scans (m : Member) (c : Cluster) (ps : List Nat) : Scans m c ps (m.scan c ps) := by
  induction ps generalizing m with
  | nil => exact .nothing (.refl c m) (by simp)
  | cons p ps ih =>
      by_cases hp : (p : Int) ∈ m.paused
      · rw [show m.scan c (p :: ps) = m.scan c ps by simp [scan, hp]]
        exact (ih m).past (.refl c m) (fun h => absurd hp h)
      · cases hl : c.logs[p]? with
        | none =>
            rw [show m.scan c (p :: ps) = m.scan c ps by simp [scan, hp, hl]]
            exact (ih m).past (.refl c m) (fun _ l hl' => by simp [hl] at hl')
        | some l =>
            have hv := m.visits hl
            cases he : m.visit c p l with
            | mk m' e =>
                rw [he] at hv
                cases e with
                | none =>
                    rw [show m.scan c (p :: ps) = m'.scan c ps by simp [scan, hp, hl, he]]
                    cases hv with
                    | nothing h hm => exact (ih m').past hm (fun _ l' hl' => by simp_all)
                | some e =>
                    rw [show m.scan c (p :: ps) = (m', some e) by simp [scan, hp, hl, he]]
                    exact .stops (.refl c m) (List.nil_append _).symm (by simp) hp hl hv rfl

end Member

namespace Connection

variable {s s' : Connection} {n : Nat} {l : PartitionLog}

/-- Where the member reads next: behind what it has read, or where its group resumes, but nothing that is deleted. -/
def place (s : Connection) (n : Nat) : Int :=
  max ((s.member.positions.get? n).getD ((s.promised n).getD (s.cluster.low n))) (s.cluster.low n)

theorem logs_flush (s : Connection) : s.flush.cluster.logs = s.cluster.logs := by simp [flush_cluster]

theorem position_flush (hl : s.cluster.logs[n]? = some l) : s.flush.member.position s.flush.cluster n l = s.place n := by
  have hgroup : s.flush.member.group = s.member.group := rfl
  have hpositions : s.flush.member.positions = s.member.positions := rfl
  rw [Member.position, place, hgroup, hpositions, committed_flush, Cluster.low_eq hl]

structure Looks (s s' : Connection) : Prop where
  logs : s'.cluster.logs = s.cluster.logs
  topic : s'.cluster.topic = s.cluster.topic
  next : s'.member.next = s.member.next
  paused : s'.member.paused = s.member.paused
  ended : s'.member.ended = s.member.ended
  closed : s'.member.closed = s.member.closed
  positions : ∀ n : Int, s'.member.positions.get? n = s.member.positions.get? n ∨
    ∃ k : Nat, n = k ∧ k < s.cluster.size ∧ s'.member.positions.get? n = some (s.place k)

theorem looks_flush (s : Connection) : Looks s s.flush :=
  ⟨s.logs_flush, by simp [flush_cluster], rfl, rfl, rfl, rfl, fun _ => .inl rfl⟩

theorem looks_looked {m : Member} (h : s.flush.member.Looked s.flush.cluster m) : Looks s ⟨s.flush.cluster, m⟩ := by
  have hflush := s.looks_flush
  refine ⟨hflush.logs, hflush.topic, ?_, ?_, ?_, ?_, fun n => ?_⟩
  iterate 4 rw [h.same]; rfl
  rcases h.positions n with hn | ⟨k, l, hk, hl, hn⟩
  · exact .inl hn
  · rw [hflush.logs] at hl
    exact .inr ⟨k, hk, Cluster.lt_size hl, position_flush hl ▸ hn⟩

def Exhausted (s : Connection) (n : Nat) : Prop := (n : Int) ∉ s.member.paused → s.cluster.high n ≤ s.place n

theorem exhausted_flush (hn : n < s.cluster.size) (h : s.flush.member.Exhausted s.flush.cluster n) : s.Exhausted n := by
  intro hp
  obtain ⟨l, hl⟩ := Cluster.exists_log hn
  rw [Cluster.high_eq hl, ← position_flush hl]
  exact h hp l (s.logs_flush ▸ hl)

def turn (s : Connection) (i : Nat) : Nat := (s.member.next + i) % s.cluster.size

def InTurn (s : Connection) (n : Nat) : Prop :=
  (n : Int) ∉ s.member.paused ∧ ∃ i < s.cluster.size, s.turn i = n ∧ ∀ j < i, s.Exhausted (s.turn j)

inductive Polls (s : Connection) : Connection → Except BrokerError (Option PollEvent) → Prop
  | failed {s' : Connection} (e : BrokerError) (h : Looks s s') : Polls s s' (.error e)
  | closed {s' : Connection} (hc : s.member.closed = true) (h : Looks s s') : Polls s s' (.ok none)
  | idle {s' : Connection} (hall : ∀ n < s.cluster.size, s.Exhausted n) (h : Looks s s') : Polls s s' (.ok none)
  | record {s' : Connection} {n : Nat} {l : PartitionLog} (hc : s.member.closed = false) (ht : s.InTurn n)
      (hl : s.cluster.logs[n]? = some l) (hlt : s.place n < l.high) (h : Looks s s') :
      Polls s
        ⟨s'.cluster, { s'.member with
          positions := s'.member.positions.insert n (s.place n + 1)
          next := (n + 1) % s.cluster.size
          ended := s'.member.ended.filter (fun q => q ≠ n) }⟩
        (.ok (some (.record (.consumed (s.cluster.partition n) (s.place n) 0 none (l.value? (s.place n)) []))))
  | ended {s' : Connection} {n : Nat} (hc : s.member.closed = false) (hn : n < s.cluster.size)
      (hm : (n : Int) ∉ s.member.ended) (h : Looks s s') :
      Polls s
        ⟨s'.cluster, { s'.member with
          positions := s'.member.positions.insert n (s.place n)
          ended := n :: s'.member.ended }⟩
        (.ok (some (.endOfPartition (s.cluster.partition n))))

theorem exists_turn (s : Connection) (hn : n < s.cluster.size) : ∃ i < s.cluster.size, s.turn i = n := by
  refine ⟨(n + (s.cluster.size - s.member.next % s.cluster.size)) % s.cluster.size, Nat.mod_lt _ (by omega), ?_⟩
  have hdiv := Nat.mod_add_div s.member.next s.cluster.size
  have hlt := Nat.mod_lt s.member.next (show 0 < s.cluster.size by omega)
  rw [turn, Nat.add_mod_mod]
  have hround : s.member.next + (n + (s.cluster.size - s.member.next % s.cluster.size)) =
      n + s.cluster.size * (s.member.next / s.cluster.size + 1) := by
    rw [Nat.mul_add]
    omega
  rw [hround, Nat.add_mul_mod_self_left, Nat.mod_eq_of_lt hn]

theorem round_eq (s : Connection) : s.flush.member.round s.flush.cluster = (List.range s.cluster.size).map s.turn := by
  have hsize : s.flush.cluster.size = s.cluster.size := congrArg List.length s.logs_flush
  rw [Member.round, hsize]
  rfl

theorem polls (s : Connection) : Polls s s.poll.1 s.poll.2 := by
  rw [poll]
  split
  · exact .failed _ ⟨rfl, rfl, rfl, rfl, rfl, rfl, fun _ => .inl rfl⟩
  · dsimp only
    split
    · next hc => exact .closed hc s.looks_flush
    · next hc =>
        have hopen : s.member.closed = false := Bool.eq_false_iff.mpr hc
        have hscan := s.flush.member.scans s.flush.cluster (s.flush.member.round s.flush.cluster)
        generalize s.flush.member.scan s.flush.cluster (s.flush.member.round s.flush.cluster) = r at hscan ⊢
        rw [round_eq] at hscan
        have hexhausted {i : Nat} (hi : i < s.cluster.size) (h : s.flush.member.Exhausted s.flush.cluster (s.turn i)) :
            s.Exhausted (s.turn i) := exhausted_flush (Nat.mod_lt _ (by omega)) h
        cases hscan with
        | nothing hm h =>
            refine .idle (fun n hn => ?_) (looks_looked hm)
            obtain ⟨i, hi, rfl⟩ := s.exists_turn hn
            exact hexhausted hi (h _ (List.mem_map.mpr ⟨i, List.mem_range.mpr hi, rfl⟩))
        | @stops m₁ qs qs' n l e hm hps h hn hl hv he =>
            have hflush := s.looks_flush
            have hl' : s.cluster.logs[n]? = some l := hflush.logs ▸ hl
            have hposition : m₁.position s.flush.cluster n l = s.place n := (hm.position hl).trans (position_flush hl')
            have hpartition : s.flush.cluster.partition n = s.cluster.partition n := by simp [Cluster.partition, hflush.topic]
            have hsize : s.flush.cluster.size = s.cluster.size := congrArg List.length hflush.logs
            have hi : qs.length < s.cluster.size := by
              have hlength : s.cluster.size = qs.length + (qs'.length + 1) := by simpa using congrArg List.length hps
              omega
            have hat (i : Nat) (hi : i < s.cluster.size) : (qs ++ n :: qs')[i]? = some (s.turn i) := by simp [← hps, hi]
            have hturn : s.InTurn n := by
              refine ⟨hn, qs.length, hi, by simpa [eq_comm] using hat _ hi, fun j hj => ?_⟩
              have hj' := hat j (Nat.lt_trans hj hi)
              rw [List.getElem?_append_left hj] at hj'
              exact hexhausted (Nat.lt_trans hj hi) (h _ (List.mem_of_getElem? hj'))
            cases hv with
            | nothing => simp at he
            | record hlt =>
                rw [hposition] at hlt
                simp only [hposition, hpartition, hsize]
                exact .record hopen hturn hl' hlt (looks_looked hm)
            | ended hhigh hended =>
                have hmember : (n : Int) ∉ s.member.ended := by
                  rw [hm.same] at hended
                  exact hended
                simp only [hposition, hpartition]
                exact .ended hopen (Cluster.lt_size hl') hmember (looks_looked hm)

theorem exists_polls {s : Connection} {e : Except BrokerError (Option PollEvent)} (h : s.poll.2 = e) :
    ∃ s', s.poll.1 = s' ∧ Polls s s' e := ⟨_, rfl, h ▸ s.polls⟩

end Connection

end StreamTrigger
