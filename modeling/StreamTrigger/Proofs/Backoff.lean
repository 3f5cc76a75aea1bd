import StreamTrigger.Proofs.BatchSizes
import Mathlib.Data.List.DropRight
import Mathlib.Data.List.Induction

namespace StreamTrigger

abbrev PollReply := Except BrokerError (Option PollEvent)

namespace Ingestion

def failed : PollReply → Bool
  | .error _ => true
  | .ok _ => false

def succeeded (r : PollReply) : Bool := !failed r

def brought : PollReply → Bool
  | .ok (some (.record _)) => true
  | _ => false

theorem failed_of_brought {r : PollReply} (h : brought r) : failed r = false := by
  cases r with
  | error e => simp [brought] at h
  | ok x => rfl

/-- The failures behind the last poll that ends a row of them. -/
def failuresSince (ends : PollReply → Bool) (rs : List PollReply) : Nat :=
  (rs.rtakeWhile (fun r => !ends r)).countP failed

def tally (n : Nat) (r : PollReply) : Nat := if brought r then 0 else if failed r then n + 1 else n

theorem failuresSince_concat (ends : PollReply → Bool) (rs : List PollReply) (r : PollReply) :
    failuresSince ends (rs ++ [r]) =
      if ends r then 0 else if failed r then failuresSince ends rs + 1 else failuresSince ends rs := by
  rw [failuresSince, List.rtakeWhile_concat]
  by_cases he : ends r
  · simp [he]
  · by_cases hf : failed r <;> simp [he, hf, failuresSince]

theorem foldl_tally (rs : List PollReply) : rs.foldl tally 0 = failuresSince brought rs := by
  induction rs using List.reverseRecOn with
  | nil => rfl
  | append_singleton rs r ih => rw [List.foldl_concat, ih, tally, failuresSince_concat]

/-- The count is that of failures in a row as long as no success follows a failure behind the last record. -/
theorem failuresSince_record_eq_iff (rs : List PollReply) :
    failuresSince brought rs = failuresSince succeeded rs ↔
      (rs.rtakeWhile (fun r => !brought r)).Pairwise (fun r r' => failed r → failed r') := by
  induction rs using List.reverseRecOn with
  | nil => simp [failuresSince]
  | append_singleton rs r ih =>
      rw [failuresSince_concat, failuresSince_concat, List.rtakeWhile_concat]
      by_cases hb : brought r
      · have hf : failed r = false := failed_of_brought hb
        simp [hb, succeeded, hf]
      · cases hf : failed r with
        | true => simp [hb, succeeded, hf, ih, List.pairwise_append]
        | false =>
            -- nothing failed in a row here, so nothing must have failed since the record
            have hnone : failuresSince brought rs = 0 ↔ ∀ x ∈ rs.rtakeWhile (fun r => !brought r), failed x = false := by
              rw [failuresSince, List.countP_eq_zero]
              simp
            have hcalm (h : failuresSince brought rs = 0) :
                (rs.rtakeWhile (fun r => !brought r)).Pairwise (fun r r' => failed r → failed r') :=
              List.pairwise_of_forall_mem_list (fun x hx y _ hf => by simp [hnone.mp h x hx] at hf)
            simpa [hb, succeeded, hf, List.pairwise_append, ← hnone] using hcalm

/-- What the loop hears when it polls to gather records. A poll of a flush that waits is none of these. -/
def poll? (l : Ingestion) (a : Answer) : Option PollReply :=
  match l.phase, a with
  | .polling _ _, .polled r => some r
  | _, _ => none

def polls (l : Ingestion) : List Answer → List PollReply
  | [] => []
  | a :: as => (l.poll? a).toList ++ (l.step a).1.polls as

theorem poll?_eq_some_iff {l : Ingestion} {a : Answer} {r : PollReply} :
    l.poll? a = some r ↔ a = .polled r ∧ ∃ start wait, l.phase = .polling start wait := by
  unfold poll?
  split
  case h_1 start wait x hp => simp [hp, eq_comm]
  case h_2 hother => simpa using fun ha start wait hp => hother start wait r hp ha

theorem errors_stepPolled (l : Ingestion) (start : Nat) (r : PollReply) :
    (l.stepPolled start r).1.errors = tally l.errors r := by
  rcases r with e | _ | x | p
  · rfl
  · rfl
  · simp only [stepPolled]
    split
    · exact (steady_beginFlush _ _).2
    · rfl
  · rfl

theorem errors_step (l : Ingestion) (a : Answer) : (l.step a).1.errors = (l.poll? a).toList.foldl tally l.errors := by
  cases hpoll : l.poll? a with
  | some r =>
      obtain ⟨rfl, start, wait, hp⟩ := poll?_eq_some_iff.mp hpoll
      simpa [step, hp] using l.errors_stepPolled start r
  | none =>
      cases l.step_spec a with
      | between hl h => exact h.errors
      | polls hp ha h' => simp [poll?, hp, ha] at hpoll
      | begins hl hn hm h' => exact h' ▸ (steady_beginFlush ..).2
      | within hp h => exact h.errors
      | leaves hp hn hm h' => exact h' ▸ (steady_endFlush ..).2
      | resumed hp hm h' => exact h' ▸ (steady_concludeFlush ..).2

theorem errors_run (l : Ingestion) (as : List Answer) : (l.run as).1.errors = (l.polls as).foldl tally l.errors := by
  induction as generalizing l with
  | nil => rfl
  | cons a as ih => rw [run, polls, List.foldl_append, ← errors_step]; exact ih _

def BacksOff (start deadline : Nat) (l : Ingestion) : Prop :=
  l.phase = .resting start deadline ∨ l.phase = .dozing start deadline ∨ ∃ span, l.phase = .sleeping start deadline span

def Early (deadline : Nat) : Answer → Prop
  | .flag stop => stop = false
  | .time t => t < deadline
  | _ => True

section Waiting

variable {l : Ingestion} {start deadline : Nat}

theorem backsOff_step (h : l.BacksOff start deadline) {a : Answer} (ha : Early deadline a) :
    (l.step a).1.BacksOff start deadline ∧ l.poll? a = none := by
  rcases h with h | h | ⟨span, h⟩
  · cases a with
    | flag stop => simp_all [BacksOff, step, Early, poll?, goTo]
    | _ => simp [BacksOff, step, poll?, h]
  · cases a with
    | time t => simp [BacksOff, step, poll?, h, goTo, Nat.not_le.mpr ha]
    | _ => simp [BacksOff, step, poll?, h]
  · cases a <;> simp [BacksOff, step, poll?, h, goTo]

theorem polls_of_backsOff (h : l.BacksOff start deadline) {as : List Answer} (has : ∀ a ∈ as, Early deadline a) :
    l.polls as = [] := by
  induction as generalizing l with
  | nil => rfl
  | cons a as ih =>
      obtain ⟨hnext, hnone⟩ := backsOff_step h (has a List.mem_cons_self)
      simp [polls, hnone, ih hnext (fun b hb => has b (List.mem_cons_of_mem a hb))]

end Waiting

/-- A poll that fails is reported with the number of polls that failed since the last record, and that number sets the
deadline before which there is no other poll, unless a stop is requested. The polls counted failed in a row exactly when
no success stands behind one of them. -/
theorem backs_off_by_failures_since_record (s : ListenerSettings) (as : List Answer) (e : BrokerError) (began wait : Nat)
    (hpolling : ((start s).1.run as).1.phase = .polling began wait) :
    let l := ((start s).1.run as).1
    let rs := (start s).1.polls as ++ [.error e]
    let n := failuresSince brought rs
    let l' := (l.step (.polled (.error e))).1
    (l.step (.polled (.error e))).2 = [.pollFailed n e] ∧
    (∀ t, let deadline := t + min (100 * Span.millisecond * min n 10) (s.interval - (t - began))
      (l'.step (.time t)).1.phase = .resting began deadline ∧
        ∀ bs, (∀ b ∈ bs, Early deadline b) → (l'.step (.time t)).1.polls bs = []) ∧
    (n = failuresSince succeeded rs ↔
      (rs.rtakeWhile (fun r => !brought r)).Pairwise (fun r r' => failed r → failed r')) := by
  intro l rs n l'
  have hn : n = l.errors + 1 := by
    have herrors : l.errors = failuresSince brought ((start s).1.polls as) :=
      (errors_run _ as).trans (foldl_tally _)
    rw [herrors]
    exact failuresSince_concat ..
  have hstep : l.step (.polled (.error e)) = l.stepPolled began (.error e) := by simp only [step, show l.phase = _ from hpolling]
  have hl' : l' = { l with errors := l.errors + 1, phase := .backingOff began } := congrArg Prod.fst hstep
  have hsettings : l.settings = s := settings_run _ as
  refine ⟨by rw [hstep, hn]; rfl, fun t => ?_, failuresSince_record_eq_iff rs⟩
  have hrest : (l'.step (.time t)).1.phase =
      .resting began (t + min (100 * Span.millisecond * min n 10) (s.interval - (t - began))) := by
    rw [hl', hn, ← hsettings]
    rfl
  exact ⟨hrest, fun bs hbs => polls_of_backsOff (.inl hrest) hbs⟩

def failure : PollReply := .error (.messageConsumption .transportFailure)

def failOnce : List Answer := pollOnce failure ++ [.time 0, .flag false, .time 100000000]

theorem backs_off_by_two_failures :
    let as := [.flag false, .time 0] ++ pollOnce (arrival 0) ++ failOnce ++ [.flag false, .time 850000000]
    let l := ((start (.forTopic "events")).1.run as).1
    let next := l.step (.polled failure)
    l.phase = .polling 0 100000000 ∧ next.2 = [.pollFailed 2 (.messageConsumption .transportFailure)] ∧
      (next.1.step (.time 900000000)).1.phase = .resting 0 1000000000 := by
  intro as l next
  have hpolling : l.phase = .polling 0 100000000 := by decide +kernel
  have htwo : failuresSince brought ((start (.forTopic "events")).1.polls as ++ [failure]) = 2 := by decide +kernel
  obtain ⟨hreport, hwait, -⟩ := backs_off_by_failures_since_record (.forTopic "events") as
    (.messageConsumption .transportFailure) 0 100000000 hpolling
  rw [failure] at htwo
  rw [htwo] at hreport hwait
  exact ⟨hpolling, hreport, (hwait 900000000).1⟩

/-- A poll that saw nothing stands between two failures. -/
theorem quiet_poll_counts_on : ¬ ∀ (s : ListenerSettings) (as : List Answer) (e : BrokerError) (began wait : Nat),
    ((start s).1.run as).1.phase = .polling began wait →
    (((start s).1.run as).1.step (.polled (.error e))).2 =
      [.pollFailed (failuresSince succeeded ((start s).1.polls as ++ [.error e])) e] := by
  intro h
  have hcount := h (.forTopic "events")
    ([.flag false, .time 0] ++ failOnce ++ pollOnce (.ok none) ++ [.flag false, .time 0])
    (.messageConsumption .transportFailure) 0 100000000 (by decide)
  revert hcount
  decide

end Ingestion

end StreamTrigger
