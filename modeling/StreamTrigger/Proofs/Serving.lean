import StreamTrigger.Proofs.Operating
import Mathlib.Data.List.Basic

namespace StreamTrigger

namespace Connection

/-- What the group has committed as a poll finds it, or the low mark where there is no commit. -/
def begins (s : Connection) (n : Nat) : Int := (s.flush.cluster.committed? s.member.group n).getD (s.cluster.low n)

def produced (n : Nat) (ops : List Operation) : List Bytes := ops.flatMap (Operation.values n)

def isPaused (n : Nat) (ops : List Operation) : Bool := ops.foldl (fun held op => op.holds n held) false

def Step.Meets (n : Nat) (x : Step) : Prop :=
  x.op = .poll ∧ x.before.member.positions.get? n = none ∧ x.after.member.positions.get? n ≠ none

/-- A poll that finds the low mark of a partition at an offset, and leaves the member no lower. -/
def Step.Lifts (n : Nat) (o : Int) (x : Step) : Prop :=
  x.op = .poll ∧ x.before.cluster.low n = o ∧ ∃ v, x.after.member.positions.get? n = some v ∧ o ≤ v

/-- An offset, or one above it to which retention has moved the member. -/
def Reached (n : Nat) (base : Int) (h : List Step) (o : Int) : Prop := o = base ∨ base < o ∧ ∃ x ∈ h, x.Lifts n o

/-- The offset to go on from, and what was done since: none of the partition was delivered in it. -/
inductive Resumes (n : Nat) : List Step → Int → List Step → Prop
  | begun {h hs : List Step} {y : Step} (hy : y.Meets n) (ht : taken n (h ++ y :: hs) = []) :
      Resumes n (h ++ y :: hs) (max (y.before.begins n) (y.before.cluster.low n)) hs
  | behind {h hs : List Step} {y : Step} {r : Record} (hr : y.took n = [r]) (ht : taken n hs = []) :
      Resumes n (h ++ y :: hs) (r.offset + 1) hs

/-- The offset that comes next in a partition when a poll gets to it. -/
inductive Next (n : Nat) (h : List Step) (x : Step) : Int → Prop
  | first (hx : x.Meets n) (ht : taken n h = []) : Next n h x (max (x.before.begins n) (x.before.cluster.low n))
  | later {base o : Int} {hs : List Step} (hb : Resumes n h base hs) (ho : Reached n base (hs ++ [x]) o) : Next n h x o

/-- An offset that will not be delivered any more: it was, or the group began behind it, or retention had overtaken it. -/
inductive Gone (n : Nat) (h : List Step) (o : Int) : Prop
  | delivered {r : Record} (hr : r ∈ taken n h) (ho : r.offset = o)
  | skipped {y : Step} (hy : y ∈ h) (hm : y.Meets n) (ho : o < y.before.begins n)
  | lapsed {y : Step} {low : Int} (hy : y ∈ h) (hl : y.Lifts n low) (ho : o < low)

structure Delivers (b : Connection) (ops : List Operation) (n : Nat) (r : Record) : Prop where
  partition : r.partition = b.cluster.partition n
  next : Next n (b.history ops) ⟨b.run ops, .poll⟩ r.offset
  low : (b.run ops).cluster.low n ≤ r.offset
  high : r.offset < (b.run ops).cluster.high n
  value : ∃ v, r.value = some v ∧ (produced n ops)[r.offset.toNat]? = some v
  unpaused : isPaused n ops = false

/-- What holds of the deliveries behind some operations, and of what a poll brings then. -/
structure Serves (b : Connection) (ops : List Operation) : Prop where
  increasing : ∀ n, (taken n (b.history ops)).Pairwise (fun r r' => r.offset < r'.offset)
  record : ∀ r, (b.run ops).poll.2 = .ok (some (.record r)) → ∃ n < b.cluster.size, b.Delivers ops n r
  closed : .close ∈ ops → ∀ e, (b.run ops).poll.2 = .ok e → e = none
  ended : ∀ p, (b.run ops).poll.2 = .ok (some (.endOfPartition p)) → ∃ n < b.cluster.size, p = b.cluster.partition n ∧
    ∀ h x hs, b.history ops = h ++ x :: hs → x.event = some (.endOfPartition p) → taken n hs ≠ []
  idle : (b.run ops).poll.2 = .ok none → .close ∈ ops ∨
    ∀ n < b.cluster.size, isPaused n ops = false → ∀ o, ¬ (b.run ops).Undelivered n o
  -- what is delivered and what is undelivered lie on two sides of the place where the member reads next
  ahead : ∀ n, ∀ r ∈ taken n (b.history ops), r.offset < (b.run ops).place n
  gone : ∀ n, ∀ o < (b.run ops).place n, o < (b.run ops).cluster.low n ∨
    (b.run ops).member.positions.get? n = none ∧ o < (b.run ops).begins n ∨ Gone n (b.history ops) o

section Standing

variable {n : Nat} {h hs : List Step} {x : Step} {base o : Int}

theorem place_unvisited {s : Connection} (hp : s.member.positions.get? n = none) :
    s.place n = max (s.begins n) (s.cluster.low n) := by
  rw [place, begins, committed_flush, hp, Option.getD_none]

theorem place_visited {s : Connection} (hp : s.member.positions.get? n = some o) : s.place n = max o (s.cluster.low n) := by
  rw [place, hp, Option.getD_some]

theorem Reached.concat (h : Reached n base hs o) (x : Step) : Reached n base (hs ++ [x]) o :=
  h.imp_right (fun ⟨hlt, y, hy, hl⟩ => ⟨hlt, y, List.mem_append_left _ hy, hl⟩)

theorem Resumes.concat (hb : Resumes n h base hs) (hx : x.took n = []) : Resumes n (h ++ [x]) base (hs ++ [x]) := by
  cases hb with
  | begun hy ht =>
      rw [List.append_assoc, List.cons_append]
      exact .begun hy (by simp_all)
  | behind hr ht =>
      rw [List.append_assoc, List.cons_append]
      exact .behind hr (by simp_all)

theorem Next.resumes (hn : Next n h x o) (ht : x.took n = []) :
    ∃ base hs, Resumes n (h ++ [x]) base hs ∧ Reached n base hs o := by
  cases hn with
  | first hx hnil => exact ⟨_, [], .begun hx (by simp [hnil, ht]), .inl rfl⟩
  | later hb ho => exact ⟨_, _, hb.concat ht, ho⟩

theorem Gone.concat (h' : Gone n h o) (x : Step) : Gone n (h ++ [x]) o := by
  cases h' with
  | delivered hr ho => exact .delivered (by simp [hr]) ho
  | skipped hy hm ho => exact .skipped (List.mem_append_left _ hy) hm ho
  | lapsed hy hl ho => exact .lapsed (List.mem_append_left _ hy) hl ho

/-- How a member has come to where it stands in a partition. -/
inductive Standing (n : Nat) (h : List Step) : Option Int → Prop
  | unvisited (ht : taken n h = []) : Standing n h none
  | visited {pos base : Int} {hs : List Step} (hb : Resumes n h base hs) (hr : Reached n base hs pos)
      (above : ∀ r ∈ taken n h, r.offset < pos) (gone : ∀ o < pos, Gone n h o) : Standing n h (some pos)

variable (hstand : Standing n h (x.before.member.positions.get? n))

include hstand

theorem Standing.ahead : ∀ r ∈ taken n h, r.offset < x.before.place n := by
  generalize hp : x.before.member.positions.get? n = p at hstand
  cases hstand with
  | unvisited ht => simp [ht]
  | visited hb hr above gone =>
      intro r hr
      have := above r hr
      rw [place_visited hp]
      omega

theorem Standing.gone (ho : o < x.before.place n) : o < x.before.cluster.low n ∨
    x.before.member.positions.get? n = none ∧ o < x.before.begins n ∨ Gone n h o := by
  generalize hp : x.before.member.positions.get? n = p at hstand
  cases hstand with
  | unvisited ht =>
      rw [place_unvisited hp] at ho
      have : o < x.before.cluster.low n ∨ o < x.before.begins n := by omega
      exact this.imp_right (fun h => .inl ⟨rfl, h⟩)
  | visited hb hr above gone =>
      rw [place_visited hp] at ho
      by_cases hlow : o < x.before.cluster.low n
      · exact .inl hlow
      · exact .inr (.inr (gone o (by omega)))

section Visit

variable {v : Int} (hop : x.op = .poll) (hv : x.after.member.positions.get? n = some v) (hle : x.before.place n ≤ v)

include hop hv hle

omit hstand in
theorem Step.lifts : x.Lifts n (x.before.cluster.low n) :=
  ⟨hop, rfl, v, hv, Int.le_trans (x.before.low_le_place n) hle⟩

theorem Standing.next : Next n h x (x.before.place n) := by
  have hafter : x.after.member.positions.get? n ≠ none := by simp [hv]
  have hlifts := Step.lifts hop hv hle
  generalize hp : x.before.member.positions.get? n = p at hstand
  cases hstand with
  | unvisited ht =>
      rw [place_unvisited hp]
      exact .first ⟨hop, hp, hafter⟩ ht
  | @visited pos base hs hb hr above gone =>
      rw [place_visited hp]
      -- a low mark above the position has come there since the last visit, so this poll is the one that lifts the member
      by_cases hlow : x.before.cluster.low n ≤ pos
      · rw [Int.max_eq_left hlow]
        exact .later hb (hr.concat x)
      · rw [Int.max_eq_right (by omega)]
        have hbase : base ≤ pos := hr.elim (fun he => he ▸ Int.le_refl _) (fun hlt => Int.le_of_lt hlt.1)
        exact .later hb (.inr ⟨by omega, x, by simp, hlifts⟩)

theorem Standing.gone_visit (ho : o < x.before.place n) : Gone n (h ++ [x]) o := by
  have hafter : x.after.member.positions.get? n ≠ none := by simp [hv]
  rcases hstand.gone ho with hlow | ⟨hnone, hlow⟩ | hgone
  · exact .lapsed (by simp) (Step.lifts hop hv hle) hlow
  · exact .skipped (by simp) ⟨hop, hnone, hafter⟩ hlow
  · exact hgone.concat x

end Visit

theorem Standing.concat : Standing n (h ++ [x]) (x.after.member.positions.get? n) := by
  rcases x.touches n with ⟨hp, ht⟩ | ⟨hop, hn, hp, ht⟩ | ⟨r, hop, hn, hp, -, ht, hr⟩
  · rw [hp]
    generalize x.before.member.positions.get? n = p at hstand ⊢
    cases hstand with
    | unvisited hnil => exact .unvisited (by simp [hnil, ht])
    | visited hb hr above gone =>
        exact .visited (hb.concat ht) (hr.concat x) (by simpa [ht] using above) (fun o ho => (gone o ho).concat x)
  · have hle := Int.le_refl (x.before.place n)
    obtain ⟨base, hs, hb, hr⟩ := (hstand.next hop hp hle).resumes ht
    rw [hp]
    exact .visited hb hr (by simpa [ht] using hstand.ahead) (fun o => hstand.gone_visit hop hp hle)
  · have hle : x.before.place n ≤ x.before.place n + 1 := by omega
    rw [hp]
    refine .visited (.behind ht (taken_nil n)) (.inl (by rw [hr])) (fun r' hr' => ?_) (fun o ho => ?_)
    · rcases List.mem_append.mp (taken_append n h [x] ▸ hr') with hr' | hr'
      · have := hstand.ahead r' hr'
        omega
      · obtain rfl : r' = r := by simpa [ht] using hr'
        omega
    · rcases Int.lt_or_eq_of_le (Int.le_of_lt_add_one ho) with ho | ho
      · exact hstand.gone_visit hop hp hle ho
      · exact .delivered (r := r) (by simp [ht]) (hr.trans ho.symm)

end Standing

section Run

variable {b : Connection} {n : Nat}

theorem standing (hb : b.member.positions.get? n = none) (ops : List Operation) :
    Standing n (b.history ops) ((b.run ops).member.positions.get? n) := by
  induction ops using List.reverseRecOn with
  | nil => exact hb ▸ .unvisited (taken_nil n)
  | append_singleton ops op ih =>
      rw [history_concat, run_concat]
      exact ih.concat (x := ⟨b.run ops, op⟩)

theorem increasing (hb : b.member.positions.get? n = none) (ops : List Operation) :
    (taken n (b.history ops)).Pairwise (fun r r' => r.offset < r'.offset) := by
  induction ops using List.reverseRecOn with
  | nil => exact .nil
  | append_singleton ops op ih =>
      let x : Step := ⟨b.run ops, op⟩
      rw [history_concat, taken_append, List.pairwise_append]
      have hahead := (standing hb ops).ahead (x := x)
      rcases x.touches n with ⟨-, ht⟩ | ⟨-, -, -, ht⟩ | ⟨r, -, -, -, -, ht, hr⟩
      · simpa [x, ht] using ih
      · simpa [x, ht] using ih
      · refine ⟨ih, by simp [x, ht], fun r' hr' r'' hr'' => ?_⟩
        obtain rfl : r'' = r := by simpa [x, ht] using hr''
        exact hr ▸ hahead r' hr'

theorem mem_ended {p : Partition} (hp : p.number = n) (ops : List Operation) {h hs : List Step} {x : Step}
    (hh : b.history ops = h ++ x :: hs) (hx : x.event = some (.endOfPartition p)) (ht : taken n hs = []) :
    (n : Int) ∈ (b.run ops).member.ended := by
  induction ops using List.reverseRecOn generalizing hs with
  | nil => simp [history] at hh
  | append_singleton ops op ih =>
      rw [history_concat] at hh
      rw [run_concat]
      rcases hs.eq_nil_or_concat with rfl | ⟨hs, y, rfl⟩
      · obtain ⟨-, hy⟩ := List.append_inj' hh rfl
        obtain rfl : (⟨b.run ops, op⟩ : Step) = x := by simpa using hy
        exact Step.ended_noted hx hp
      · rw [List.concat_eq_append, ← List.cons_append, ← List.append_assoc] at hh
        obtain ⟨hinit, hy⟩ := List.append_inj' hh rfl
        obtain rfl : (⟨b.run ops, op⟩ : Step) = y := by simpa using hy
        have ht : taken n hs = [] ∧ Step.took n ⟨b.run ops, op⟩ = [] := by simpa using ht
        exact Step.ended_stays (ih hinit ht.1) ht.2

theorem announces {ops : List Operation} {p : Partition} (hp : (b.run ops).poll.2 = .ok (some (.endOfPartition p))) :
    ∃ n < b.cluster.size, p = b.cluster.partition n ∧
      ∀ h x hs, b.history ops = h ++ x :: hs → x.event = some (.endOfPartition p) → taken n hs ≠ [] := by
  obtain ⟨s', -, hpolls⟩ := exists_polls hp
  cases hpolls with
  | @ended s'' n hc hn hm h =>
      refine ⟨n, b.size_run ops ▸ hn, by simp [Cluster.partition], fun h x hs hh hx ht => ?_⟩
      exact hm (mem_ended rfl ops hh hx ht)

end Run

structure New (b : Connection) : Prop where
  positions : ∀ n, b.member.positions.get? n = none
  paused : b.member.paused = []
  closed : b.member.closed = false
  logs : ∀ l ∈ b.cluster.logs, l = {}

namespace New

variable {b : Connection} (hb : b.New) {ops : List Operation} {n : Nat}

include hb

theorem mem_paused : (n : Int) ∈ (b.run ops).member.paused ↔ isPaused n ops := by simp [paused_run, hb.paused, isPaused]

theorem is_closed : (b.run ops).member.closed ↔ .close ∈ ops := by simp [closed_run, hb.closed]

theorem log (hops : ∀ p offset, .truncate p offset ∈ ops → 0 ≤ offset) {l : PartitionLog}
    (hl : (b.run ops).cluster.logs[n]? = some l) : 0 ≤ l.low ∧ l.values = produced n ops := by
  rw [logs_run, Option.map_eq_some_iff] at hl
  obtain ⟨l', hl', rfl⟩ := hl
  obtain rfl := hb.logs l' (List.mem_of_getElem? hl')
  exact ⟨Operation.lower_nonneg (Int.le_refl 0) hops, List.nil_append _⟩

theorem delivers (hops : ∀ p offset, .truncate p offset ∈ ops → 0 ≤ offset) {r : Record}
    (hr : (b.run ops).poll.2 = .ok (some (.record r))) : ∃ n < b.cluster.size, b.Delivers ops n r := by
  have hnext {n : Nat} {v : Int} : (b.run ops).poll.1.member.positions.get? n = some v → (b.run ops).place n ≤ v →
      Next n (b.history ops) ⟨b.run ops, .poll⟩ ((b.run ops).place n) :=
    (standing (hb.positions n) ops).next (x := ⟨b.run ops, .poll⟩) rfl
  obtain ⟨s', hafter, hpolls⟩ := exists_polls hr
  rw [hafter] at hnext
  cases hpolls with
  | @record s'' n l hc hturn hl hlt h =>
      obtain ⟨hlow, hvalues⟩ := hb.log hops hl
      have hplace := (b.run ops).low_le_place n
      have hlength : ((b.run ops).place n).toNat < l.values.length := by
        rw [Cluster.low_eq hl] at hplace
        rw [PartitionLog.high] at hlt
        omega
      have hread : (s''.member.positions.insert n ((b.run ops).place n + 1)).get? n = some ((b.run ops).place n + 1) := by simp
      refine ⟨n, b.size_run ops ▸ Cluster.lt_size hl, ?partition, hnext hread (by omega), hplace, ?high, ?value, ?unpaused⟩
      case partition => simp [Record.consumed, Cluster.partition]
      case high => exact Cluster.high_eq hl ▸ hlt
      case value =>
        have hpos : 0 ≤ (b.run ops).place n := by
          rw [Cluster.low_eq hl] at hplace
          omega
        refine ⟨_, (if_pos hpos).trans (List.getElem?_eq_getElem hlength), ?_⟩
        exact hvalues ▸ List.getElem?_eq_getElem hlength
      case unpaused => exact Bool.eq_false_iff.mpr (fun hp => hturn.1 (hb.mem_paused.mpr hp))

theorem silent (hclose : .close ∈ ops) {e : Option PollEvent} (he : (b.run ops).poll.2 = .ok e) : e = none := by
  have hclosed := hb.is_closed.mpr hclose
  obtain ⟨s', -, hpolls⟩ := exists_polls he
  cases hpolls with
  | closed | idle => rfl
  | record hc | ended hc => simp [hc] at hclosed

theorem exhausted (he : (b.run ops).poll.2 = .ok none) : .close ∈ ops ∨
    ∀ n < b.cluster.size, isPaused n ops = false → ∀ o, ¬ (b.run ops).Undelivered n o := by
  obtain ⟨s', -, hpolls⟩ := exists_polls he
  cases hpolls with
  | closed hc => exact .inl (hb.is_closed.mp hc)
  | idle hall =>
      refine .inr (fun n hn hp o ho => ?_)
      have hpaused : (n : Int) ∉ (b.run ops).member.paused := by simp [hb.mem_paused, hp]
      have hplace := hall n (by simpa using hn) hpaused
      have hlt := exists_undelivered.mp ⟨o, ho⟩
      omega

end New

theorem new_opened (topic group : String) (partitions : Int) (announcesEnds : Bool) :
    (opened topic group partitions announcesEnds).New :=
  ⟨fun _ => rfl, rfl, rfl, fun _ hl => List.eq_of_mem_replicate hl⟩

theorem serves_opened (topic group : String) (partitions : Int) (announcesEnds : Bool) {ops : List Operation}
    (hops : ∀ p offset, .truncate p offset ∈ ops → 0 ≤ offset) : Serves (opened topic group partitions announcesEnds) ops := by
  have hb := new_opened topic group partitions announcesEnds
  have hstanding (n : Nat) := standing (hb.positions n) ops
  exact {
    increasing := fun n => increasing (hb.positions n) ops
    record := fun _ => hb.delivers hops
    closed := fun hclose _ => hb.silent hclose
    ended := fun _ => announces
    idle := hb.exhausted
    ahead := fun n => (hstanding n).ahead (x := ⟨_, .poll⟩)
    gone := fun n _ => (hstanding n).gone (x := ⟨_, .poll⟩) }

def pastRetention : List Operation := [.produce 0 [1], .produce 0 [2], .produce 0 [3], .poll, .truncate 0 2, .poll]

theorem serves_opened_past_retention : (∀ p offset, .truncate p offset ∈ pastRetention → 0 ≤ offset) ∧
    (taken 0 ((opened "t" "g" 1 false).history pastRetention)).map Record.offset = [0, 2] ∧
    Serves (opened "t" "g" 1 false) pastRetention := by
  have hops : ∀ p offset, .truncate p offset ∈ pastRetention → 0 ≤ offset := by
    intro p offset h
    obtain ⟨-, rfl⟩ : p = 0 ∧ offset = 2 := by simpa [pastRetention] using h
    decide
  exact ⟨hops, by decide +kernel, serves_opened "t" "g" 1 false hops⟩

end Connection

end StreamTrigger
