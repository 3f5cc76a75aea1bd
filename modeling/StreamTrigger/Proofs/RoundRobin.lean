import StreamTrigger.Proofs.Operating
import Mathlib.Data.Nat.ModEq

namespace StreamTrigger

namespace Connection

def Sooner (s : Connection) (p q : Nat) : Prop := ∃ i j, i < j ∧ j < s.cluster.size ∧ s.turn i = p ∧ s.turn j = q

/-- At a poll there is something for the member in a partition. -/
def Step.Waits (p : Nat) (x : Step) : Prop :=
  x.op = .poll → (p : Int) ∉ x.before.member.paused ∧ ∃ o, x.before.Undelivered p o

instance (p : Nat) (x : Step) : Decidable (x.Waits p) :=
  decidable_of_iff (x.op = .poll → (p : Int) ∉ x.before.member.paused ∧ x.before.place p < x.before.cluster.high p)
    (by rw [Step.Waits, exists_undelivered])

section Turn

variable {s s' : Connection} {i j t p q : Nat}

theorem turn_inj (hi : i < s.cluster.size) (hj : j < s.cluster.size) (h : s.turn i = s.turn j) : i = j :=
  Nat.ModEq.eq_of_lt_of_lt (Nat.ModEq.add_left_cancel' s.member.next h) hi hj

theorem turn_shift (hsize : s'.cluster.size = s.cluster.size) (hnext : s'.member.next = (s.turn t + 1) % s.cluster.size)
    (i : Nat) : s'.turn i = s.turn (t + 1 + i) := by
  simp only [turn, hsize, hnext, Nat.mod_add_mod, Nat.add_assoc]

theorem sooner_behind (hq : q < s.cluster.size) (hsize : s'.cluster.size = s.cluster.size)
    (hnext : s'.member.next = (q + 1) % s.cluster.size) (hp : p < s.cluster.size) (hpq : p ≠ q) : s'.Sooner p q := by
  obtain ⟨t, ht, rfl⟩ := s.exists_turn hq
  obtain ⟨i, hi, rfl⟩ := s'.exists_turn (hsize ▸ hp)
  have hlast : s'.turn (s.cluster.size - 1) = s.turn t := by
    rw [turn_shift hsize hnext, show t + 1 + (s.cluster.size - 1) = t + s.cluster.size by omega, turn, turn, ← Nat.add_assoc,
      Nat.add_mod_right]
  have hne : i ≠ s.cluster.size - 1 := by
    rintro rfl
    exact hpq hlast
  exact ⟨i, s.cluster.size - 1, by omega, by omega, rfl, hlast⟩

theorem Sooner.congr (h : s.Sooner p q) (hsize : s'.cluster.size = s.cluster.size) (hnext : s'.member.next = s.member.next) :
    s'.Sooner p q := by
  simpa only [Sooner, turn, hsize, hnext] using h

theorem Sooner.shift (hj : j < s.cluster.size) (hti : t < i) (hij : i < j) (hsize : s'.cluster.size = s.cluster.size)
    (hnext : s'.member.next = (s.turn t + 1) % s.cluster.size) : s'.Sooner (s.turn i) (s.turn j) := by
  refine ⟨i - (t + 1), j - (t + 1), by omega, by omega, ?_, ?_⟩
  · rw [turn_shift hsize hnext, Nat.add_sub_cancel' hti]
  · rw [turn_shift hsize hnext, Nat.add_sub_cancel' (Nat.lt_trans hti hij)]

end Turn

section Wait

variable {s : Connection} {x : Step} {p q : Nat}

theorem Step.Waits.not_exhausted (hx : x.Waits p) (hop : x.op = .poll) : ¬ x.before.Exhausted p := by
  obtain ⟨hp, ho⟩ := hx hop
  have hlt := exists_undelivered.mp ho
  intro h
  have hle := h hp
  omega

theorem Step.next_of_took (h : x.took q ≠ []) :
    q < x.before.cluster.size ∧ x.after.member.next = (q + 1) % x.before.cluster.size := by
  cases x.touches q with
  | leaves hp ht => exact absurd ht h
  | looks hop hn hp ht => exact absurd ht h
  | reads r hop hn hp hnext ht hr => exact ⟨hn, hnext⟩

/-- While a partition waits that comes before another one, the other one is not read. -/
theorem Sooner.step (h : x.before.Sooner p q) (hx : x.Waits p) (hp : x.took p = []) :
    x.after.Sooner p q ∧ x.took q = [] := by
  have hsize : x.after.cluster.size = x.before.cluster.size := x.before.size_act x.op
  by_cases hop : x.op = .poll
  · obtain ⟨s', e, hafter, hevent, hpolls⟩ := x.exists_polls hop
    rw [hafter] at hsize ⊢
    cases hpolls with
    | failed _ hl | closed _ hl | idle _ hl => exact ⟨h.congr hsize hl.next, Step.took_eq hevent⟩
    | ended _ _ _ hl => exact ⟨h.congr hsize hl.next, Step.took_eq hevent⟩
    | @record s'' k l hc hturn hl hlt hs =>
        obtain ⟨-, t, ht, hkt, hbefore⟩ := hturn
        obtain ⟨i, j, hij, hj, rfl, rfl⟩ := h
        rw [Step.took_eq_nil_iff hevent] at hp ⊢
        -- what is read comes no later than `p`, where there is something too
        have hti : t < i := by
          rcases Nat.lt_trichotomy t i with hti | rfl | hit
          · exact hti
          · exact absurd (congrArg Int.ofNat hkt.symm) hp
          · exact absurd (hbefore i hit) (hx.not_exhausted hop)
        have htj : k ≠ x.before.turn j := by
          rintro rfl
          have := turn_inj ht hj hkt
          omega
        exact ⟨.shift hj hti hij hsize (by rw [hkt]), fun hk => htj (Int.ofNat_inj.mp hk)⟩
  · have hnext : x.after.member.next = x.before.member.next := (x.before.unmoved_act x.op hop).2.1
    exact ⟨h.congr hsize hnext, Step.took_eq (Step.event_idle hop)⟩

theorem Sooner.run {ops : List Operation} (h : s.Sooner p q) (hwait : ∀ x ∈ s.history ops, x.Waits p)
    (hp : taken p (s.history ops) = []) : taken q (s.history ops) = [] := by
  induction ops generalizing s with
  | nil => rfl
  | cons op ops ih =>
      obtain ⟨hx, hrest⟩ := List.forall_mem_cons.mp hwait
      obtain ⟨hp, hps⟩ := List.append_eq_nil_iff.mp hp
      obtain ⟨hsooner, hq⟩ := Sooner.step (x := ⟨s, op⟩) h hx hp
      exact List.append_eq_nil_iff.mpr ⟨hq, ih hsooner hrest hps⟩

end Wait

/-- Between two records of a partition, every other one that waits all the time has one. -/
theorem waiting_comes_between {s : Connection} {ops : List Operation} {p q : Nat} (hpq : p ≠ q)
    (hfirst : Step.took q ⟨s, .poll⟩ ≠ []) (hlast : Step.took q ⟨s.poll.1.run ops, .poll⟩ ≠ [])
    (hwait : ∀ x ∈ s.poll.1.history (ops ++ [.poll]), x.Waits p) : taken p (s.poll.1.history ops) ≠ [] := by
  intro hnone
  obtain ⟨hq, hnext⟩ := Step.next_of_took hfirst
  have hp : p < s.cluster.size := by
    obtain ⟨-, o, ho⟩ := hwait ⟨s.poll.1.run ops, .poll⟩ (by simp [history_concat]) rfl
    have hsize : (s.poll.1.run ops).cluster.size = s.cluster.size := (size_run _ ops).trans (s.size_act .poll)
    exact hsize ▸ ho.lt_size
  have hsooner : s.poll.1.Sooner p q := sooner_behind hq (s.size_act .poll) hnext hp hpq
  have hnone : taken p (s.poll.1.history (ops ++ [.poll])) = [] := by
    rw [history_concat, taken_append, hnone]
    simpa using Step.took_other hlast hpq
  have hq := hsooner.run hwait hnone
  rw [history_concat, taken_append, List.append_eq_nil_iff] at hq
  exact hlast (by simpa using hq.2)

def twoFilled : Connection :=
  (opened "t" "g" 3 true).run [.produce 0 [1], .produce 0 [2], .produce 2 [3], .produce 2 [4]]

theorem waiting_comes_between_at_end :
    (Step.took 0 ⟨twoFilled, .poll⟩ ≠ [] ∧ Step.took 0 ⟨twoFilled.poll.1.run [.poll, .poll], .poll⟩ ≠ [] ∧
      (∀ x ∈ twoFilled.poll.1.history ([.poll, .poll] ++ [.poll]), x.Waits 2) ∧
      brought twoFilled.poll.1.poll.2 = some (.endOfPartition ⟨"t", 1⟩)) ∧
    taken 2 (twoFilled.poll.1.history [.poll, .poll]) ≠ [] := by
  have hfirst : Step.took 0 ⟨twoFilled, .poll⟩ ≠ [] := by decide +kernel
  have hlast : Step.took 0 ⟨twoFilled.poll.1.run [.poll, .poll], .poll⟩ ≠ [] := by decide +kernel
  have hwait : ∀ x ∈ twoFilled.poll.1.history ([.poll, .poll] ++ [.poll]), x.Waits 2 := by decide +kernel
  exact ⟨⟨hfirst, hlast, hwait, by decide +kernel⟩, waiting_comes_between (by decide) hfirst hlast hwait⟩

end Connection

end StreamTrigger
