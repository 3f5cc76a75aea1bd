import StreamTrigger.Proofs.Polling

namespace StreamTrigger

open Trace

namespace Ingestion

def offering? (l : Ingestion) : Option Batch :=
  match l.phase with
  | .flushing _ (.resuming _ _) => none
  | .flushing _ _ => some l.flush.batch
  | _ => none

/-- The records of the next batch. Behind the last flush there is none. -/
def gathering (l : Ingestion) : List Record :=
  match l.phase with
  | .flushing .close _ => []
  | .flushing _ _ => l.pending.pending ++ l.held
  | .releasing | .signalling | .ended => []
  | _ => l.pending.pending

/-- The records that an answer brings to the next batch. -/
def joining (l : Ingestion) (a : Answer) : List Record := if l.closing then [] else polled (l.marks a)

def bundle (rs : List Record) : List Batch := if rs = [] then [] else [rs]

def formed (l : Ingestion) : List Batch := l.offering?.toList ++ bundle l.gathering

structure GoesOn (l l' : Ingestion) (rs : List Record) : Prop where
  formed : l'.formed = bundle rs
  gathering : l'.gathering = [] ∨ l'.gathering = rs

theorem goesOn_resume (l : Ingestion) (delivered : Bool) (r : Resume) :
    GoesOn l (l.resume delivered r) (if r = .close then [] else l.pending.pending) := by
  by_cases h : l.pending.pending = [] <;> cases r <;> cases delivered <;> constructor <;>
    simp [resume, Accumulator.flush?, h, formed, offering?, gathering, bundle, goTo]

theorem goesOn_beginFlush (l : Ingestion) (r : Resume) :
    GoesOn l (l.beginFlush r) l.pending.pending ∧ (l.beginFlush r).gathering = [] := by
  by_cases h : l.pending.pending = []
  · have hr := l.goesOn_resume true r
    have hbegin : l.beginFlush r = l.resume true r := by simp [beginFlush, Accumulator.flush?, h]
    rw [h, ite_self] at hr
    rw [hbegin, h]
    exact ⟨hr, hr.gathering.elim id id⟩
  · refine ⟨?_, ?_⟩
    · constructor <;> cases r <;> simp [beginFlush, Accumulator.flush?, h, formed, offering?, gathering, bundle]
    · cases r <;> simp [beginFlush, Accumulator.flush?, h, gathering]

theorem goesOn_concludeFlush (l : Ingestion) (r : Resume) (o : FlushOutcome) :
    GoesOn l (l.concludeFlush r o).1 (if r = .close then [] else l.pending.pending ++ l.held) := by
  have h (delivered : Bool) := goesOn_resume
    { l with pending := l.held.foldl Accumulator.add l.pending, held := [], paused := none } delivered r
  simp only [foldl_add] at h
  cases o with
  | empty | enqueued n => simpa only [concludeFlush, foldl_add] using ⟨(h true).formed, (h true).gathering⟩
  | aborted n | closed n => simpa only [concludeFlush, foldl_add] using ⟨(h false).formed, (h false).gathering⟩

theorem goesOn_endFlush (l : Ingestion) (r : Resume) (o : FlushOutcome) :
    GoesOn l (l.endFlush r o).1 (if r = .close then [] else l.pending.pending ++ l.held) := by
  rw [endFlush]
  split
  · constructor <;> cases r <;> simp [formed, offering?, gathering, bundle, goTo]
  · exact goesOn_concludeFlush l r o

structure Turnover (l : Ingestion) (a : Answer) (l' : Ingestion) : Prop where
  formed : l.offering?.toList ++ bundle (l.gathering ++ l.joining a) = sent (l.marks a) ++ l'.formed
  gathering : l'.gathering = [] ∨ l'.gathering = l.gathering ++ l.joining a

theorem Turnover.of_end {l l' : Ingestion} {a : Answer} {r : Resume} {p : FlushPhase} (h : l.phase = .flushing r p)
    (hp : polled (l.marks a) = []) (hs : l.offering?.toList = sent (l.marks a))
    (h' : GoesOn l l' (if r = .close then [] else l.pending.pending ++ l.held)) : Turnover l a l' := by
  have hg : l.gathering ++ l.joining a = if r = .close then [] else l.pending.pending ++ l.held := by
    cases p <;> cases r <;> simp [Ingestion.gathering, h, joining, hp, closing]
  exact ⟨by rw [hs, hg, h'.formed], hg ▸ h'.gathering⟩

section Hand

variable {l l' : Ingestion} {a : Answer} {r : Resume} {p : FlushPhase}

theorem hand_flushing (hp : l.phase = .flushing r p) :
    l.offering? = (if p.settled then none else some l.flush.batch) ∧
      l.gathering = if r = .close then [] else l.pending.pending ++ l.held := by
  cases p <;> cases r <;> simp [offering?, gathering, FlushPhase.settled, hp]

theorem hand_between (hl : l.flushing = false) :
    l.offering? = none ∧ l.gathering = if l.stopped then [] else l.pending.pending := by
  cases h : l.phase with
  | flushing r p => simp [flushing, h] at hl
  | _ => simp [offering?, gathering, stopped, h]

theorem Between.turnover (h : Between l a l') (hl : l.flushing = false) : Turnover l a l' := by
  obtain ⟨ho, hg⟩ := hand_between hl
  obtain ⟨ho', hg'⟩ := hand_between h.flushing
  have hj : l.joining a = [] := by simp [joining, h.marks, polled]
  have hsame : l'.gathering = l.gathering := by rw [hg, hg', h.stopped, h.pending]
  exact ⟨by rw [formed, hj, ho, ho', hsame, h.marks, List.append_nil]; rfl, .inr (by rw [hsame, hj, List.append_nil])⟩

theorem Within.turnover (h : Within l r p a l') (hp : l.phase = .flushing r p) : Turnover l a l' := by
  obtain ⟨p', hp', hsettled⟩ := h.phase
  obtain ⟨ho, hg⟩ := hand_flushing hp
  obtain ⟨ho', hg'⟩ := hand_flushing hp'
  have hnext : l'.gathering = l.gathering ++ l.joining a := by
    rw [hg, hg', joining, h.pending, h.held]
    cases r <;> simp [closing, hp]
  exact ⟨by rw [formed, ho, ho', hsettled, hnext, h.batch, h.sent]; rfl, .inr hnext⟩

end Hand

theorem turnover_stepPolled (l : Ingestion) (start wait : Nat) (reply : Except BrokerError (Option PollEvent))
    (h : l.phase = .polling start wait) : Turnover l (.polled reply) (l.stepPolled start reply).1 := by
  rcases reply with e | _ | r | p
  · constructor <;> simp [stepPolled, joining, closing, marks, asks, h, formed, offering?, gathering, polled, sent]
  · constructor <;> simp [stepPolled, goTo, joining, closing, marks, asks, h, formed, offering?, gathering, polled, sent]
  · have hj : l.joining (.polled (.ok (some (.record r)))) = [r] := by simp [joining, closing, marks, asks, h, polled]
    have hg : l.gathering = l.pending.pending := by simp [gathering, h]
    have ho : l.offering? = none := by simp [offering?, h]
    have hs : sent (l.marks (.polled (.ok (some (.record r))))) = [] := by simp [marks, asks, h, sent]
    simp only [stepPolled]
    split
    · obtain ⟨hb, hnil⟩ := goesOn_beginFlush { l with errors := 0, pending := l.pending.add r } (.sameInterval start)
      exact ⟨by rw [ho, hj, hg, hs, hb.formed]; rfl, .inl hnil⟩
    · exact ⟨by rw [ho, hj, hg, hs]; rfl, .inr (by rw [hj, hg]; rfl)⟩
  · constructor <;> simp [stepPolled, goTo, joining, closing, marks, asks, h, formed, offering?, gathering, polled, sent]

theorem turnover_beginFlush (l : Ingestion) (a : Answer) (r : Resume) (ho : l.offering? = none)
    (hg : l.gathering = l.pending.pending) (hm : l.marks a = []) : Turnover l a (l.beginFlush r) := by
  have hj : l.joining a = [] := by simp [joining, hm, polled]
  obtain ⟨hb, hnil⟩ := l.goesOn_beginFlush r
  exact ⟨by rw [ho, hg, hj, hm, hb.formed, List.append_nil]; rfl, .inl hnil⟩

theorem turnover_step (l : Ingestion) (a : Answer) : Turnover l a (l.step a).1 := by
  cases l.step_spec a with
  | between hl h => exact h.turnover hl
  | polls hp ha h' => exact h' ▸ ha ▸ turnover_stepPolled l _ _ _ hp
  | begins hl hn hm h' =>
      obtain ⟨ho, hg⟩ := hand_between hl
      exact h' ▸ turnover_beginFlush l a _ ho (by simp [hg, hn]) hm
  | within hp h => exact h.turnover hp
  | leaves hp hn hm h' =>
      obtain ⟨hpolled, hsent⟩ := hm
      exact h' ▸ .of_end hp hpolled (by simp [(hand_flushing hp).1, hn, hsent]) (goesOn_endFlush ..)
  | resumed hp hm h' =>
      have hleft : l.offering? = none := by simp [(hand_flushing hp).1, FlushPhase.settled]
      exact h' ▸ .of_end hp (by simp [hm, polled]) (by simp [hleft, hm, sent]) (goesOn_concludeFlush ..)

/-- A record joins a batch of `n` records or more. -/
def Crowds (n : Nat) (l : Ingestion) (a : Answer) : Prop := l.joining a ≠ [] ∧ n ≤ l.gathering.length

/-- A wait of a flush brings the next batch to `n` records or more, although no flush of it has begun. -/
def Overfills (n : Nat) (l : Ingestion) (a : Answer) : Prop :=
  l.joining a ≠ [] ∧ l.offering?.isSome ∧ n ≤ l.gathering.length + 1

instance (n : Nat) (l : Ingestion) (a : Answer) : Decidable (l.Crowds n a) := inferInstanceAs (Decidable (_ ∧ _))

instance (n : Nat) (l : Ingestion) (a : Answer) : Decidable (l.Overfills n a) := inferInstanceAs (Decidable (_ ∧ _))

def Sometime (P : Ingestion → Answer → Prop) (l : Ingestion) : List Answer → Prop
  | [] => False
  | a :: as => P l a ∨ Sometime P (l.step a).1 as

instance decidableSometime (P : Ingestion → Answer → Prop) [∀ l a, Decidable (P l a)] :
    (l : Ingestion) → (as : List Answer) → Decidable (l.Sometime P as)
  | _, [] => inferInstanceAs (Decidable False)
  | l, a :: as =>
      have := decidableSometime P (l.step a).1 as
      inferInstanceAs (Decidable (P l a ∨ Sometime P (l.step a).1 as))

variable {n : Nat} {l : Ingestion} {a : Answer}

theorem length_joining (l : Ingestion) (a : Answer) : (l.joining a).length ≤ 1 := by
  rw [joining]
  split
  · exact Nat.zero_le 1
  · unfold marks
    split <;> simp [polled]

theorem turnover_forall {P : Batch → Prop} (h : ∀ b ∈ l.formed, P b)
    (hjoin : l.joining a ≠ [] → P (l.gathering ++ l.joining a)) : ∀ b ∈ sent (l.marks a) ++ (l.step a).1.formed, P b := by
  intro b hb
  rw [← (turnover_step l a).formed] at hb
  rcases List.mem_append.mp hb with hb | hb
  · exact h b (List.mem_append_left _ hb)
  · by_cases hj : l.joining a = []
    · rw [hj, List.append_nil] at hb
      exact h b (List.mem_append_right _ hb)
    · rw [bundle, if_neg (by simp [hj])] at hb
      obtain rfl := List.mem_singleton.mp hb
      exact hjoin hj

theorem turnover_exists (h : (∃ b ∈ l.formed, n < b.length) ∨ l.Crowds n a) :
    ∃ b ∈ sent (l.marks a) ++ (l.step a).1.formed, n < b.length := by
  have next (hlong : n < (l.gathering ++ l.joining a).length) :
      ∃ b ∈ sent (l.marks a) ++ (l.step a).1.formed, n < b.length := by
    refine ⟨l.gathering ++ l.joining a, ?_, hlong⟩
    rw [← (turnover_step l a).formed, bundle, if_neg (List.ne_nil_of_length_pos (Nat.zero_lt_of_lt hlong))]
    exact List.mem_append_right _ (List.mem_singleton_self _)
  rcases h with ⟨b, hb, hlong⟩ | ⟨hj, hfull⟩
  · rcases List.mem_append.mp hb with hb | hb
    · exact ⟨b, (turnover_step l a).formed ▸ List.mem_append_left _ hb, hlong⟩
    · rw [bundle] at hb
      split at hb
      · cases hb
      · obtain rfl := List.mem_singleton.mp hb
        exact next (by rw [List.length_append]; omega)
  · have hpos := List.length_pos_iff.mpr hj
    exact next (by rw [List.length_append]; omega)

theorem sent_run_ne_nil (h : ∀ b ∈ l.formed, b ≠ []) (as : List Answer) : ∀ b ∈ sent (l.run as).2, b ≠ [] := by
  induction as generalizing l with
  | nil => simp [run, sent]
  | cons a as ih =>
      have hstep := turnover_forall (a := a) h (fun hj => by simp [hj])
      rw [List.forall_mem_append] at hstep
      rw [run, sent_append, List.forall_mem_append]
      exact ⟨hstep.1, ih hstep.2⟩

theorem sent_run_le (h : ∀ b ∈ l.formed, b.length ≤ n) {as : List Answer} (hc : ¬ l.Sometime (Crowds n) as) :
    ∀ b ∈ sent (l.run as).2, b.length ≤ n := by
  induction as generalizing l with
  | nil => simp [run, sent]
  | cons a as ih =>
      obtain ⟨ha, has⟩ := not_or.mp hc
      have hstep := turnover_forall (P := fun b => b.length ≤ n) (a := a) h (fun hj => by
        have hroom : l.gathering.length < n := by simpa [Crowds, hj] using ha
        have hone := l.length_joining a
        rw [List.length_append]
        omega)
      rw [List.forall_mem_append] at hstep
      rw [run, sent_append, List.forall_mem_append]
      exact ⟨hstep.1, ih hstep.2 has⟩

/-- At the end of the loop nothing is in hand, so what was too large has left. -/
theorem sent_run_gt {as : List Answer} (h : (∃ b ∈ l.formed, n < b.length) ∨ l.Sometime (Crowds n) as)
    (hend : (l.run as).1.phase = .ended) : ∃ b ∈ sent (l.run as).2, n < b.length := by
  induction as generalizing l with
  | nil =>
      have hnone : l.formed = [] := by
        have hphase : l.phase = .ended := hend
        simp [formed, offering?, gathering, bundle, hphase]
      simp [hnone, Sometime] at h
  | cons a as ih =>
      have hrest (h : (∃ b ∈ (l.step a).1.formed, n < b.length) ∨ (l.step a).1.Sometime (Crowds n) as) :
          ∃ b ∈ sent (l.run (a :: as)).2, n < b.length := by
        obtain ⟨b, hb, hlong⟩ := ih h hend
        rw [run, sent_append]
        exact ⟨b, List.mem_append_right _ hb, hlong⟩
      have hnow (h : (∃ b ∈ l.formed, n < b.length) ∨ l.Crowds n a) : ∃ b ∈ sent (l.run (a :: as)).2, n < b.length := by
        obtain ⟨b, hb, hlong⟩ := turnover_exists h
        rcases List.mem_append.mp hb with hb | hb
        · rw [run, sent_append]
          exact ⟨b, List.mem_append_left _ hb, hlong⟩
        · exact hrest (.inl ⟨b, hb, hlong⟩)
      rcases h with h | h | h
      · exact hnow (.inl h)
      · exact hnow (.inr h)
      · exact hrest (.inr h)

theorem gathering_of_joining (ho : l.offering? = none) (hj : l.joining a ≠ []) :
    (l.step a).1.gathering = [] ∨ (l.step a).1.gathering.length < l.settings.maxBatch := by
  obtain ⟨wait, r, hasks, rfl⟩ : ∃ wait r, l.asks = some (.poll wait) ∧ a = .polled (.ok (some (.record r))) := by
    rw [joining] at hj
    split at hj
    · cases hj rfl
    · unfold marks at hj
      split at hj <;> simp_all [polled]
  cases h : l.phase with
  | polling start wait =>
      simp only [step, h, stepPolled]
      split
      · exact .inl (goesOn_beginFlush _ _).2
      · next hlimit => exact .inr (Nat.lt_of_not_le hlimit)
  | flushing q p => cases p <;> simp [asks, h, offering?] at hasks ho
  | _ => simp [asks, h] at hasks

theorem not_crowds_of_not_overfills {as : List Answer} (hlimit : l.settings.maxBatch = n) (hroom : l.gathering.length < n)
    (h : ¬ l.Sometime (Overfills n) as) : ¬ l.Sometime (Crowds n) as := by
  induction as generalizing l with
  | nil => exact id
  | cons a as ih =>
      obtain ⟨ha, has⟩ := not_or.mp h
      have hturn := turnover_step l a
      have hnext : (l.step a).1.gathering.length < n := by
        rcases hturn.gathering with hg | hg
        · rw [hg]
          exact Nat.zero_lt_of_lt hroom
        · by_cases hj : l.joining a = []
          · rwa [hg, hj, List.append_nil]
          · cases ho : l.offering? with
            | none =>
                rcases gathering_of_joining ho hj with hnil | hlt
                · rw [hnil]
                  exact Nat.zero_lt_of_lt hroom
                · exact hlimit ▸ hlt
            | some b =>
                have hsmall : l.gathering.length + 1 < n := by simpa [Overfills, hj, ho] using ha
                have hone := l.length_joining a
                rw [hg, List.length_append]
                omega
      have hlimit' : (l.step a).1.settings.maxBatch = n := by rw [settings_step, hlimit]
      exact not_or.mpr ⟨fun hc => Nat.not_le.mpr hroom hc.2, ih hlimit' hnext has⟩

/-- Every batch in the queue holds a record, and its limit is kept as long as no record joins a batch that is full: never,
as long as each wait for room brings fewer records than a batch may hold. A loop that was left alone by aborts, over a
queue that stayed open, has kept the limit only if no record ever did. -/
theorem queued_within_limit_iff (s : ListenerSettings) (hlimit : 1 ≤ s.maxBatch) (as : List Answer) :
    (∀ b ∈ queued ((start s).1.run as).2, 1 ≤ b.length) ∧
      (¬ (start s).1.Sometime (Crowds s.maxBatch) as → ∀ b ∈ queued ((start s).1.run as).2, b.length ≤ s.maxBatch) ∧
      (¬ (start s).1.Sometime (Overfills s.maxBatch) as → ¬ (start s).1.Sometime (Crowds s.maxBatch) as) ∧
      ((∀ a ∈ as, a.breaksOff = false) → ((start s).1.run as).1.phase = .ended →
        (∀ b ∈ queued ((start s).1.run as).2, b.length ≤ s.maxBatch) → ¬ (start s).1.Sometime (Crowds s.maxBatch) as) := by
  have hnone : (start s).1.formed = [] := rfl
  have hsent {b : Batch} (hb : b ∈ queued ((start s).1.run as).2) : b ∈ sent ((start s).1.run as).2 :=
    (queued_sublist_sent _).subset hb
  refine ⟨fun b hb => ?_, fun hc b hb => ?_, not_crowds_of_not_overfills rfl hlimit, fun hopen hend hle hc => ?_⟩
  · have hne := sent_run_ne_nil (by simp [hnone]) as b (hsent hb)
    exact List.length_pos_iff.mpr hne
  · exact sent_run_le (by simp [hnone]) hc b (hsent hb)
  · obtain ⟨b, hb, hlong⟩ := sent_run_gt (.inr hc) hend
    rw [sent_eq_queued _ (dropped_run hopen _)] at hb
    exact Nat.not_le.mpr hlong (hle b hb)

def pairs : ListenerSettings := { ListenerSettings.forTopic "events" with maxBatch := 2 }

def arrival (n : Int) : Except BrokerError (Option PollEvent) := .ok (some (.record ⟨⟨"events", 0⟩, n, 0, none, none, {}⟩))

def pollOnce (reply : Except BrokerError (Option PollEvent)) : List Answer := [.flag false, .time 0, .polled reply]

def stopBehindWait (waits : List (Except BrokerError (Option PollEvent))) : List Answer :=
  [.flag false, .time 0] ++ pollOnce (arrival 0) ++ pollOnce (arrival 1) ++ [.offered .full, .looked 1 false, .assigned (.ok [])] ++
    waits.flatMap (fun reply => [.polled reply, .offered .full, .looked 1 false]) ++
    [.polled (.ok none), .offered .accepted, .flag true, .offered .accepted]

theorem queued_within_limit_iff_waiting :
    1 ≤ pairs.maxBatch ∧ queued ((start pairs).1.run (stopBehindWait [arrival 2])).2 ≠ [] ∧
      ∀ b ∈ queued ((start pairs).1.run (stopBehindWait [arrival 2])).2, 1 ≤ b.length ∧ b.length ≤ 2 := by
  have hlimit : 1 ≤ pairs.maxBatch := by decide
  obtain ⟨hne, hle, hover, -⟩ := queued_within_limit_iff pairs hlimit (stopBehindWait [arrival 2])
  have hsmall : ¬ (start pairs).1.Sometime (Overfills pairs.maxBatch) (stopBehindWait [arrival 2]) := by decide
  exact ⟨hlimit, by decide, fun b hb => ⟨hne b hb, hle (hover hsmall) b hb⟩⟩

/-- Three records arrive in the wait, and make a batch of three. -/
theorem wait_overfills : ¬ ∀ (s : ListenerSettings) (as : List Answer), 1 ≤ s.maxBatch →
    ∀ b ∈ queued ((start s).1.run as).2, 1 ≤ b.length ∧ b.length ≤ s.maxBatch := by
  intro h
  have hlong := h pairs (stopBehindWait [arrival 2, arrival 3, arrival 4]) (by decide)
  revert hlong
  decide

end Ingestion

end StreamTrigger
