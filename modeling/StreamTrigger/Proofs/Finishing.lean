import StreamTrigger.Proofs.Draining
import StreamTrigger.Proofs.Resuming

namespace StreamTrigger

open Trace

namespace Dispatch

def left (d : Dispatch) : Nat := (d.lanes.flatMap (fun l => l.waiting ++ l.unended)).length

theorem left_effect {d d' : Dispatch} {es : List Event} (he : Effect d d' es) : d'.lanes = d.lanes ∨ d'.left < d.left := by
  cases he with
  | quiet hl hf => exact .inl hl
  | faults i l job rest f _ _ _ hl => exact .inl hl
  | starts i l job rest hi hr hw hl hf =>
      have := length_set (fun l => l.waiting ++ l.unended) hi hl
      simp only [Lane.unended, List.length_append, hr, hw, Option.toList_some, Option.toList_none, List.length_nil,
        List.length_cons] at this
      exact .inr (by simp only [left, Lane.unended]; omega)
  | finishes i l job o hi hr hl hf =>
      have := length_set (fun l => l.waiting ++ l.unended) hi hl
      simp only [Lane.unended, List.length_append, hr, Option.toList_some, Option.toList_none, List.length_singleton,
        List.length_nil] at this
      exact .inr (by simp only [left, Lane.unended]; omega)

end Dispatch

namespace CommitCall

def left (c : CommitCall) : Nat := 2 * c.unchecked.length + c.claimed.length

theorem step_left {β : Type} [Broker β] {c : CommitCall} (hc : c.done = false) (t : Tracker) (b : β) :
    (c.step t b).1.left < c.left := by
  have he := c.step_effect t b
  generalize (c.step t b).1 = c', (c.step t b).2 = r at he
  cases he with
  | rests hd => simp [hd] at hc
  | claims q qs hu =>
      have hone : (t.advance [q]).claimed.length ≤ 1 := by
        rcases t.advance_one q with ⟨hn, -⟩ | ⟨hq, -⟩
        · simp [hn]
        · simp [hq]
      simp only [left, hu, List.length_append, List.length_cons]
      omega
  | stores q qs hu hcl => simp [left, hu, hcl]
  | sends q qs hu hcl => simp [left, hu, hcl]

end CommitCall

namespace Pipeline

variable {β : Type}

def HasLane (s : Pipeline β) (i : Nat) (l : Lane) : Prop := ∃ d, s.worker.phase = .dispatching d ∧ d.lanes[i]? = some l

structure Beside (s s' : Pipeline β) : Prop where
  worker : s'.worker = s.worker
  taken : s'.taken = s.taken
  attending : s'.attending = s.attending
  call : s'.call = s.call
  begun : begun s'.marks = begun s.marks
  line : s.queue.items <+: s'.queue.items
  held : s.queue.abandoned → s'.queue.abandoned ∧ s'.queue.items = s.queue.items

theorem Beside.refl (s : Pipeline β) : Beside s s := ⟨rfl, rfl, rfl, rfl, rfl, List.prefix_rfl, fun h => ⟨h, rfl⟩⟩

theorem Beside.trans {s s' s'' : Pipeline β} (h : Beside s s') (h' : Beside s' s'') : Beside s s'' where
  worker := h'.worker.trans h.worker
  taken := h'.taken.trans h.taken
  attending := h'.attending.trans h.attending
  call := h'.call.trans h.call
  begun := h'.begun.trans h.begun
  line := h.line.trans h'.line
  held ha :=
    have ⟨ha', hi⟩ := h.held ha
    have ⟨ha'', hi'⟩ := h'.held ha'
    ⟨ha'', hi'.trans hi⟩

variable [Broker β]

theorem beside_happen (s : Pipeline β) {x : Happening β} (hx : ∀ c, x ≠ .work c) : Beside s (s.happen x) := by
  cases x with
  | work c => exact absurd rfl (hx c)
  | abandon => exact ⟨rfl, rfl, rfl, rfl, rfl, List.prefix_rfl, fun _ => ⟨rfl, rfl⟩⟩
  | elsewhere f => exact ⟨rfl, rfl, rfl, rfl, rfl, List.prefix_rfl, fun h => ⟨h, rfl⟩⟩
  | offer b =>
      rw [happen, offer]
      rcases s.queue.offer_cases b with ⟨-, hfits, ho⟩ | ho | ⟨-, ho⟩ <;> rw [ho] <;> cases hheld : s.queue.abandoned
      · exact ⟨rfl, rfl, rfl, rfl, by simp [Trace.begun], List.prefix_append _ _, by simp [hheld]⟩
      all_goals exact .refl s

theorem marks_happen (s : Pipeline β) (x : Happening β) : ∃ ns, (s.happen x).marks = s.marks ++ ns := by
  cases x with
  | offer b =>
      rw [happen, offer]
      split
      · exact ⟨_, rfl⟩
      · exact ⟨[], by simp⟩
  | abandon => exact ⟨[], by simp [happen]⟩
  | elsewhere f => exact (s.move_step _).marks
  | work c => exact (s.move_step _).marks

/-- The worker is resumed again and again; a lane that waits for its start has its turn some time; and no callback runs
for ever. -/
structure Fair (s : Pipeline β) (σ : Nat → Happening β) : Prop where
  works : ∀ n, ∃ m, n ≤ m ∧ ∃ c, σ m = .work c
  turns : ∀ (n i : Nat) (l : Lane), (s.after σ n).HasLane i l → l.running = none → l.waiting ≠ [] →
    ∃ m, n ≤ m ∧ (¬ (s.after σ m).HasLane i l ∨ ∃ c, σ m = .work c ∧ (s.after σ m).next c = .drive (.turn i))
  ends : ∀ (n i : Nat) (l : Lane), (s.after σ n).HasLane i l → l.running.isSome → ∃ m, n ≤ m ∧ ¬ (s.after σ m).HasLane i l

theorem Worked.queued {s s' : Pipeline β} (h : Worked s s') :
    s'.queue.abandoned = s.queue.abandoned ∧ queued s'.marks = queued s.marks := by
  cases h with
  | commits _ hs => simp [hs, commit]
  | leaves _ _ hs => simp [hs, BatchQueue.discard]
  | takes _ _ _ b q _ _ habandoned hs => simp [hs, habandoned]
  | looks _ _ _ hs | waits _ _ _ _ _ hs | finishes _ _ _ _ _ hs | completes _ _ _ _ _ hs | rests _ _ _ _ _ hs
  | drives _ _ _ _ _ _ hs => simp [hs]

omit [Broker β] in
theorem next_turn {s : Pipeline β} {c : Chance} {i : Nat} (h : s.next c = .drive (.turn i)) :
    s.call.done ∧ s.attending ∧ ∃ d, s.worker.phase = .dispatching d ∧ d.focus = none := by
  unfold next at h
  repeat' split at h
  all_goals cases ho : c.outcome <;> simp_all

/-- Each partition has been seen as it is to be seen in the dispatch of the batches, one after another. -/
def HasRun (s : Pipeline β) (mode : DispatchMode) (bs : List Batch) : Prop :=
  ∀ p : Partition, p.acts (events s.marks) = bs.flatMap (p.course mode)

section Progress

variable {s : Pipeline β} {σ : Nat → Happening β}

theorem Fair.resumed (h : Fair s σ) (n : Nat) :
    ∃ m, n ≤ m ∧ (∃ c, σ m = .work c) ∧ Beside (s.after σ n) (s.after σ m) := by
  obtain ⟨m, hnm, hm⟩ := h.works n
  induction hnm using Nat.decreasingInduction with
  | self => exact ⟨m, le_rfl, hm, .refl _⟩
  | of_succ n hn ih =>
      by_cases hc : ∃ c, σ n = .work c
      · exact ⟨n, le_rfl, hc, .refl _⟩
      · obtain ⟨k, hk, hwork, hbeside⟩ := ih
        exact ⟨k, by omega, hwork, (beside_happen _ (fun c he => hc ⟨c, he⟩)).trans hbeside⟩

theorem begun_queued_after {n m : Nat} (hnm : n ≤ m) :
    begun (s.after σ n).marks <+: begun (s.after σ m).marks ∧ queued (s.after σ n).marks <+: queued (s.after σ m).marks := by
  induction m, hnm using Nat.le_induction with
  | base => exact ⟨List.prefix_rfl, List.prefix_rfl⟩
  | succ m hnm ih =>
      obtain ⟨ns, hns⟩ : ∃ ns, (s.after σ (m + 1)).marks = (s.after σ m).marks ++ ns := marks_happen _ _
      rw [hns, begun_append, queued_append]
      exact ⟨ih.1.trans (List.prefix_append _ _), ih.2.trans (List.prefix_append _ _)⟩

variable (hdrain : ∀ n, Draining (s.after σ n))

include hdrain

/-- What each step of the worker reaches or comes nearer to is reached. -/
theorem Fair.comes_to (h : Fair s σ) {P Q : Pipeline β → Prop} (μ : Pipeline β → Nat)
    (hbeside : ∀ s s', Beside s s' → P s → P s' ∧ μ s' = μ s)
    (hwork : ∀ s s', Draining s → Worked s s' → P s → Q s' ∨ P s' ∧ μ s' < μ s) (n : Nat) (hn : P (s.after σ n)) :
    ∃ m, n ≤ m ∧ Q (s.after σ m) := by
  generalize hk : μ (s.after σ n) = k
  induction k using Nat.strong_induction_on generalizing n with
  | _ k ih =>
      obtain ⟨m, hnm, ⟨c, hc⟩, hsame⟩ := h.resumed n
      obtain ⟨hm, hμ⟩ := hbeside _ _ hsame hn
      have hstep : s.after σ (m + 1) = (s.after σ m).move ((s.after σ m).next c) := by rw [after, hc]; rfl
      rcases hwork _ _ (hdrain m) (work_worked (hdrain m).calm c) hm with hQ | ⟨hP, hlt⟩
      · exact ⟨m + 1, by omega, hstep ▸ hQ⟩
      · rw [← hstep] at hP hlt
        obtain ⟨m', hm', hQ⟩ := ih _ (by omega) (m + 1) hP rfl
        exact ⟨m', by omega, hQ⟩

theorem dispatch_goes_on {n : Nat} {d : Dispatch} (hp : (s.after σ n).worker.phase = .dispatching d) (hd : d.done = false) :
    ∃ d', (s.after σ (n + 1)).worker.phase = .dispatching d' ∧ (d'.lanes = d.lanes ∨ d'.left < d.left) := by
  rw [after]
  by_cases hwork : ∃ c, σ n = .work c
  · obtain ⟨c, hc⟩ := hwork
    rw [hc, happen]
    have hw := work_worked (hdrain n).calm c
    generalize (s.after σ n).move ((s.after σ n).next c) = s' at hw
    cases hw with
    | commits hcall hs => exact ⟨d, by rw [hs]; exact hp, .inl rfl⟩
    | leaves hcall hended hs => simp [Worker.ended, hp] at hended
    | looks hcall hgoing hidle hs => exact ⟨d, by rw [hs]; exact hp, .inl rfl⟩
    | takes hcall ha hw | waits hcall ha hw | finishes hcall ha hw => simp [hp] at hw
    | completes hcall ha d' hp' hd' =>
        obtain rfl : d = d' := by simpa [hp] using hp'
        simp [hd] at hd'
    | rests hcall ha d' hp' hd' hs => exact ⟨d, by rw [hs]; exact hp, .inl rfl⟩
    | drives hcall ha d' hp' hd' a hs =>
        obtain rfl : d = d' := by simpa [hp] using hp'
        have hable : Dispatch.Able (d.step a).1 := ((hdrain n).able d hp).effect (d.step_effect a)
        exact ⟨_, by simp [hs, Worker.reached, hable.faultless], Dispatch.left_effect (d.step_effect a)⟩
  · have hsame := beside_happen (s.after σ n) (fun c he => hwork ⟨c, he⟩)
    exact ⟨d, by rw [hsame.worker]; exact hp, .inl rfl⟩

theorem dispatch_stays {n : Nat} {d : Dispatch} (hp : (s.after σ n).worker.phase = .dispatching d) (hd : d.done = false)
    {m : Nat} (hnm : n ≤ m) : (∃ k, n ≤ k ∧ ∃ d', (s.after σ k).worker.phase = .dispatching d' ∧ d'.left < d.left) ∨
      ∃ d', (s.after σ m).worker.phase = .dispatching d' ∧ d'.lanes = d.lanes := by
  induction m, hnm using Nat.le_induction with
  | base => exact .inr ⟨d, hp, rfl⟩
  | succ m hnm ih =>
      rcases ih with hless | ⟨d', hp', hl⟩
      · exact .inl hless
      · have hd' : d'.done = false := by rw [← hd, Dispatch.done, Dispatch.done, hl]
        obtain ⟨d'', hp'', hl' | hlt⟩ := dispatch_goes_on hdrain hp' hd'
        · exact .inr ⟨d'', hp'', hl'.trans hl⟩
        · exact .inl ⟨m + 1, by omega, d'', hp'', by simpa [Dispatch.left, hl] using hlt⟩

/-- A lane that is not done starts its next callback or ends the one that runs. -/
theorem Fair.less_left (h : Fair s σ) {n : Nat} {d : Dispatch} (hp : (s.after σ n).worker.phase = .dispatching d)
    (hd : d.done = false) : ∃ k, n ≤ k ∧ ∃ d', (s.after σ k).worker.phase = .dispatching d' ∧ d'.left < d.left := by
  obtain ⟨l, hl, hld⟩ : ∃ l ∈ d.lanes, l.done = false := by simpa [Dispatch.done] using hd
  obtain ⟨i, hi⟩ := List.getElem?_of_mem hl
  have hlane : (s.after σ n).HasLane i l := ⟨d, hp, hi⟩
  have hmoved {m : Nat} (hnm : n ≤ m) (hm : ¬ (s.after σ m).HasLane i l) :
      ∃ k, n ≤ k ∧ ∃ d', (s.after σ k).worker.phase = .dispatching d' ∧ d'.left < d.left := by
    refine (dispatch_stays hdrain hp hd hnm).resolve_right ?_
    rintro ⟨d', hp', hl'⟩
    exact hm ⟨d', hp', hl' ▸ hi⟩
  cases hr : l.running with
  | some job =>
      obtain ⟨m, hnm, hm⟩ := h.ends n i l hlane (by simp [hr])
      exact hmoved hnm hm
  | none =>
      have hw : l.waiting ≠ [] := by
        intro hw
        simp [Lane.done, hr, hw] at hld
      obtain ⟨m, hnm, hm | ⟨c, hc, hturn⟩⟩ := h.turns n i l hlane hr hw
      · exact hmoved hnm hm
      · rcases dispatch_stays hdrain hp hd hnm with hless | ⟨d', hp', hl'⟩
        · exact hless
        · -- the turn is given while the lanes are the same, and a callback starts
          obtain ⟨hcall, ha, d'', hp'', hf⟩ := next_turn hturn
          obtain rfl : d' = d'' := by simpa [hp'] using hp''
          have hable := (hdrain m).able d' hp'
          obtain ⟨-, l', job, -, hl'', hrun⟩ := hable.turn hf (hl' ▸ hi) hld
          have hphase : (s.after σ (m + 1)).worker.phase = .dispatching (d'.step (.turn i)).1 := by
            have hfault := (hable.effect (d'.step_effect (.turn i))).faultless
            rw [after, hc, happen, hturn, move, drive_eq ha hcall hp']
            simp [Worker.reached, hfault]
          refine ⟨m + 1, by omega, _, hphase, ?_⟩
          rcases Dispatch.left_effect (d'.step_effect (.turn i)) with hsame | hlt
          · rw [hsame, hl', hi] at hl''
            obtain rfl : l = l' := by simpa using hl''
            simp [hr] at hrun
          · simpa [Dispatch.left, hl'] using hlt

theorem Fair.dispatched (h : Fair s σ) {n : Nat} {d : Dispatch} (hp : (s.after σ n).worker.phase = .dispatching d) :
    ∃ m, n ≤ m ∧ ∃ d', (s.after σ m).worker.phase = .dispatching d' ∧ d'.done := by
  generalize hk : d.left = k
  induction k using Nat.strong_induction_on generalizing n d with
  | _ k ih =>
      cases hd : d.done with
      | true => exact ⟨n, le_rfl, d, hp, hd⟩
      | false =>
          obtain ⟨m, hnm, d', hp', hlt⟩ := h.less_left hdrain hp hd
          obtain ⟨m', hm', hdone⟩ := ih _ (hk ▸ hlt) hp' rfl
          exact ⟨m', by omega, hdone⟩

theorem Fair.completes (h : Fair s σ) {n : Nat} {d : Dispatch} (hp : (s.after σ n).worker.phase = .dispatching d) :
    ∃ m, n ≤ m ∧ (s.after σ m).worker.phase = .waiting := by
  let P (t : Pipeline β) : Prop := ∃ d, t.worker.phase = .dispatching d ∧ d.done
  let μ (t : Pipeline β) : Nat := 2 * t.call.left + if t.attending then 0 else 1
  have hbeside (t t' : Pipeline β) (hb : Beside t t') (ht : P t) : P t' ∧ μ t' = μ t := by
    simp only [P, μ, hb.worker, hb.call, hb.attending]
    exact ⟨ht, trivial⟩
  have hwork (t t' : Pipeline β) (hw : Worked t t') (ht : P t) : t'.worker.phase = .waiting ∨ P t' ∧ μ t' < μ t := by
    obtain ⟨d, hp, hd⟩ := ht
    cases hw with
    | commits hcall hs =>
        have hleft := CommitCall.step_left hcall t.tracker t.broker
        refine .inr ⟨⟨d, by rw [hs]; exact hp, hd⟩, ?_⟩
        simp only [μ, hs, commit]
        omega
    | leaves hcall hended hs => simp [Worker.ended, hp] at hended
    | looks hcall hgoing hidle hs => exact .inr ⟨⟨d, by rw [hs]; exact hp, hd⟩, by simp [μ, hs, hidle]⟩
    | takes hcall ha hwait | waits hcall ha hwait | finishes hcall ha hwait => simp [hp] at hwait
    | completes hcall ha d' hp' hd' hs => exact .inl (by rw [hs])
    | rests hcall ha d' hp' hd' hs | drives hcall ha d' hp' hd' =>
        obtain rfl : d = d' := by simpa [hp] using hp'
        simp [hd] at hd'
  obtain ⟨m, hnm, hdone⟩ := h.dispatched hdrain hp
  obtain ⟨m', hm', hwait⟩ := h.comes_to hdrain μ hbeside (fun t t' _ => hwork t t') m hdone
  exact ⟨m', by omega, hwait⟩

theorem Fair.begins (h : Fair s σ) {n : Nat} (hn : (s.after σ n).worker.phase = .waiting ∧ (s.after σ n).queue.items ≠ [] ∨
    (s.after σ n).taken.isSome) :
    ∃ m, n ≤ m ∧ (begun (s.after σ n).marks).length < (begun (s.after σ m).marks).length := by
  let P (t : Pipeline β) : Prop := (t.worker.phase = .waiting ∧ t.queue.items ≠ [] ∨ t.taken.isSome) ∧
    begun t.marks = begun (s.after σ n).marks
  let μ (t : Pipeline β) : Nat := if t.taken.isSome then 0 else if t.attending then 1 else 2
  have hbeside (t t' : Pipeline β) (hb : Beside t t') (ht : P t) : P t' ∧ μ t' = μ t := by
    obtain ⟨ht, hbegun⟩ := ht
    simp only [P, μ, hb.worker, hb.taken, hb.attending, hb.begun]
    exact ⟨⟨ht.imp_left (fun ⟨hp, hi⟩ => ⟨hp, fun he => hi (List.prefix_nil.mp (he ▸ hb.line))⟩), hbegun⟩, trivial⟩
  have hwork (t t' : Pipeline β) (hd : Draining t) (hw : Worked t t') (ht : P t) :
      (begun (s.after σ n).marks).length < (begun t'.marks).length ∨ P t' ∧ μ t' < μ t := by
    obtain ⟨ht, hbegun⟩ := ht
    have hattentive := hd.clean.sound.attentive
    cases hw with
    | commits hcall hs =>
        obtain ⟨ha, d, hp⟩ := hd.clean.busy hcall
        simp [hp, hattentive ha] at ht
    | leaves hcall hended hs =>
        obtain ⟨hp, -, htaken, -⟩ := hd.atEnd hended
        simp [hp, htaken] at ht
    | looks hcall hgoing hidle hs =>
        cases htaken : t.taken with
        | none =>
            exact .inr ⟨⟨.inl (by simpa [hs, htaken] using ht), by simpa [hs, htaken] using hbegun⟩,
              by simp [μ, hs, htaken, hidle]⟩
        | some b =>
            have hb : begun t'.marks = begun t.marks ++ [b] := by
              rw [hs, begun_append, htaken]
              rfl
            exact .inl (by simp [hb, hbegun])
    | takes hcall ha hp b q hitems hclosed habandoned hs =>
        exact .inr ⟨⟨.inr (by simp [hs]), by simpa [hs] using hbegun⟩, by simp [μ, hs, hattentive ha, ha]⟩
    | waits hcall ha hp hitems | finishes hcall ha hp hitems => simp [hitems, hattentive ha] at ht
    | completes hcall ha d hp | rests hcall ha d hp | drives hcall ha d hp => simp [hp, hattentive ha] at ht
  exact h.comes_to hdrain (Q := fun t => (begun (s.after σ n).marks).length < (begun t.marks).length) μ hbeside hwork n ⟨hn, rfl⟩

theorem Fair.stops (h : Fair s σ) {n : Nat} (hp : (s.after σ n).worker.phase = .waiting)
    (hitems : (s.after σ n).queue.items = []) (habandoned : (s.after σ n).queue.abandoned) :
    ∃ m, n ≤ m ∧ (s.after σ m).worker.ended := by
  let P (t : Pipeline β) : Prop := t.worker.phase = .waiting ∧ t.queue.items = [] ∧ t.queue.abandoned
  let μ (t : Pipeline β) : Nat := if t.attending then 0 else 1
  have hbeside (t t' : Pipeline β) (hb : Beside t t') (ht : P t) : P t' ∧ μ t' = μ t := by
    obtain ⟨hp, hi, ha⟩ := ht
    obtain ⟨ha', hi'⟩ := hb.held ha
    simp only [P, μ, hb.worker, hb.attending, hi', hi]
    exact ⟨⟨hp, trivial, ha'⟩, trivial⟩
  have hwork (t t' : Pipeline β) (hd : Draining t) (hw : Worked t t') (ht : P t) :
      t'.worker.ended ∨ P t' ∧ μ t' < μ t := by
    obtain ⟨hp, hi, ha⟩ := ht
    cases hw with
    | commits hcall hs =>
        obtain ⟨-, d, hp'⟩ := hd.clean.busy hcall
        simp [hp] at hp'
    | leaves hcall hended hs => simp [Worker.ended, hp] at hended
    | looks hcall hgoing hidle hs =>
        exact .inr ⟨⟨by simpa [hs] using hp, by simpa [hs] using hi, by simpa [hs] using ha⟩, by simp [μ, hs, hidle]⟩
    | takes hcall hatt hp b q hitems => simp [hi] at hitems
    | waits hcall hatt hp hitems hheld => simp [ha] at hheld
    | finishes hcall hatt hp hitems hends hs => exact .inl (by simp [hs, Worker.stop, Worker.ended])
    | completes hcall ha d hp' | rests hcall ha d hp' | drives hcall ha d hp' => simp [hp] at hp'
  exact h.comes_to hdrain μ hbeside hwork n ⟨hp, hitems, habandoned⟩

theorem Fair.begins_more (h : Fair s σ) {n : Nat}
    (hn : (begun (s.after σ n).marks).length < (queued (s.after σ n).marks).length) :
    ∃ m, n ≤ m ∧ (begun (s.after σ n).marks).length < (begun (s.after σ m).marks).length := by
  have hline {k : Nat} (hk : (begun (s.after σ k).marks).length < (queued (s.after σ k).marks).length)
      (hp : (s.after σ k).worker.phase = .waiting) : (s.after σ k).taken = none ∧ (s.after σ k).queue.items ≠ [] := by
    have hnone : (s.after σ k).taken = none := by
      by_contra ht
      obtain ⟨b, hb⟩ := Option.ne_none_iff_exists'.mp ht
      have := (hdrain k).clean.sound.taken hb (by simp [Worker.ended, hp])
      simp [hp] at this
    refine ⟨hnone, fun hi => ?_⟩
    rw [(hdrain k).lossless, hnone, hi] at hk
    simp at hk
  cases hp : (s.after σ n).worker.phase with
  | waiting => exact h.begins hdrain (.inl ⟨hp, (hline hn hp).2⟩)
  | dispatching d =>
      by_cases ht : (s.after σ n).taken.isSome
      · exact h.begins hdrain (.inr ht)
      · obtain ⟨m, hnm, hm⟩ := h.completes hdrain hp
        obtain ⟨hbegun, hqueued⟩ := begun_queued_after (s := s) (σ := σ) hnm
        by_cases hmore : (begun (s.after σ n).marks).length < (begun (s.after σ m).marks).length
        · exact ⟨m, hnm, hmore⟩
        · have hm' := hline (k := m) (by have := hqueued.length_le; omega) hm
          obtain ⟨k, hk, hlt⟩ := h.begins hdrain (.inl ⟨hm, hm'.2⟩)
          exact ⟨k, by omega, Nat.lt_of_le_of_lt hbegun.length_le hlt⟩
  | stopped | failed f =>
      obtain ⟨-, -, ht, -, hi, -⟩ := (hdrain n).atEnd (by simp [Worker.ended, hp])
      rw [(hdrain n).lossless, ht, hi] at hn
      simp at hn

theorem Fair.begins_all (h : Fair s σ) (n : Nat) :
    ∃ m, n ≤ m ∧ queued (s.after σ n).marks <+: begun (s.after σ m).marks := by
  -- as many are begun at some time, and they are the first that were queued
  suffices hmany : ∀ k, k ≤ (queued (s.after σ n).marks).length → ∃ m, n ≤ m ∧ k ≤ (begun (s.after σ m).marks).length by
    obtain ⟨m, hnm, hlen⟩ := hmany _ le_rfl
    have hbegun : begun (s.after σ m).marks <+: queued (s.after σ m).marks :=
      ⟨(s.after σ m).taken.toList ++ (s.after σ m).queue.items, by rw [(hdrain m).lossless, List.append_assoc]⟩
    exact ⟨m, hnm, List.prefix_of_prefix_length_le (begun_queued_after hnm).2 hbegun hlen⟩
  intro k
  induction k with
  | zero => exact fun _ => ⟨n, le_rfl, Nat.zero_le _⟩
  | succ k ih =>
      intro hk
      obtain ⟨m, hnm, hm⟩ := ih (by omega)
      have hqueued := (begun_queued_after (s := s) (σ := σ) hnm).2.length_le
      by_cases hdone : k + 1 ≤ (begun (s.after σ m).marks).length
      · exact ⟨m, hnm, hdone⟩
      · obtain ⟨m', hm', hlt⟩ := h.begins_more hdrain (n := m) (by omega)
        exact ⟨m', by omega, by omega⟩

theorem Fair.idles (h : Fair s σ) (n : Nat) :
    ∃ m, n ≤ m ∧ ((s.after σ m).worker.phase = .waiting ∨ (s.after σ m).worker.ended) := by
  cases hp : (s.after σ n).worker.phase with
  | waiting => exact ⟨n, le_rfl, .inl hp⟩
  | dispatching d =>
      obtain ⟨m, hnm, hm⟩ := h.completes hdrain hp
      exact ⟨m, hnm, .inl hm⟩
  | stopped | failed f => exact ⟨n, le_rfl, .inr (by simp [Worker.ended, hp])⟩

theorem Fair.drains (h : Fair s σ) (n : Nat) :
    ∃ m, n ≤ m ∧ ((s.after σ m).worker.phase = .waiting ∨ (s.after σ m).worker.ended) ∧
      queued (s.after σ n).marks <+: begun (s.after σ m).marks ∧
      ∀ p : Partition, p.acts (events (s.after σ m).marks) =
        (begun (s.after σ m).marks).flatMap (p.course (s.after σ m).worker.mode) := by
  obtain ⟨m, hnm, hbegun⟩ := h.begins_all hdrain n
  obtain ⟨m', hm', hidle⟩ := h.idles hdrain m
  refine ⟨m', by omega, hidle, hbegun.trans (begun_queued_after hm').1, (hdrain m').idle ?_⟩
  rcases hidle with hp | hended
  · exact ahead_waiting hp
  · simp [ahead, ((hdrain m').atEnd hended).1]

theorem queued_held {n m : Nat} (hn : (s.after σ n).queue.abandoned) (hnm : n ≤ m) :
    (s.after σ m).queue.abandoned ∧ queued (s.after σ m).marks = queued (s.after σ n).marks := by
  induction m, hnm using Nat.le_induction with
  | base => exact ⟨hn, rfl⟩
  | succ m hnm ih =>
      obtain ⟨hheld, hqueued⟩ := ih
      rw [← hqueued, after]
      cases σ m with
      | offer b => simp [happen, offer, hheld]
      | abandon => exact ⟨rfl, rfl⟩
      | elsewhere f => exact ⟨hheld, rfl⟩
      | work c =>
          obtain ⟨habandoned, hsame⟩ := (work_worked (hdrain m).calm c).queued
          exact ⟨habandoned.trans hheld, hsame⟩

theorem Fair.ends_abandoned (h : Fair s σ) {n : Nat} (hn : (s.after σ n).queue.abandoned) :
    ∃ m, n ≤ m ∧ (s.after σ m).worker.ended := by
  obtain ⟨m, hnm, hwait | hended, hbegun, -⟩ := h.drains hdrain n
  · obtain ⟨hheld, hqueued⟩ := queued_held hdrain hn hnm
    have hitems : (s.after σ m).queue.items = [] := by
      have hlength := hbegun.length_le
      rw [← hqueued, (hdrain m).lossless] at hlength
      simp only [List.length_append] at hlength
      exact List.eq_nil_of_length_eq_zero (by omega)
    obtain ⟨k, hk, hended⟩ := h.stops hdrain hwait hitems hheld
    exact ⟨k, by omega, hended⟩
  · exact ⟨m, hnm, hended⟩

theorem begins_behind {n : Nat} (hn : begun (s.after σ (n + 1)).marks ≠ begun (s.after σ n).marks) :
    (s.after σ n).call.done ∧ ∀ p : Partition, p.acts (events (s.after σ n).marks) =
      (begun (s.after σ n).marks).flatMap (p.course (s.after σ n).worker.mode) := by
  rw [after] at hn
  by_cases hwork : ∃ c, σ n = .work c
  · obtain ⟨c, hc⟩ := hwork
    rw [hc, happen] at hn
    have hw := work_worked (hdrain n).calm c
    generalize (s.after σ n).move ((s.after σ n).next c) = s' at hw hn
    cases hw with
    | looks hcall hgoing hidle hs =>
        cases htaken : (s.after σ n).taken with
        | none => simp [hs, htaken] at hn
        | some b => exact ⟨hcall, (hdrain n).idle (ahead_taken htaken)⟩
    | commits _ hs => simp [hs, commit] at hn
    | leaves _ _ hs | takes _ _ _ _ _ _ _ _ hs | waits _ _ _ _ _ hs | finishes _ _ _ _ _ hs | completes _ _ _ _ _ hs
    | rests _ _ _ _ _ hs | drives _ _ _ _ _ _ hs => simp [hs] at hn
  · exact absurd (beside_happen (s.after σ n) (fun c he => hwork ⟨c, he⟩)).begun hn

end Progress

theorem mode_after (s : Pipeline β) (σ : Nat → Happening β) (n : Nat) : (s.after σ n).worker.mode = s.worker.mode := by
  induction n with
  | zero => rfl
  | succ n ih =>
      rw [← ih, after]
      by_cases hwork : ∃ c, σ n = .work c
      · obtain ⟨c, hc⟩ := hwork
        rw [hc]
        exact ((s.after σ n).move_step _).mode
      · rw [(beside_happen (s.after σ n) (fun c he => hwork ⟨c, he⟩)).worker]

omit [Broker β] in
theorem draining_ready (l : Listener) {q : BatchQueue} (hq : q.closed = false) (hl : l.abortRequested = false) (t : Tracker)
    (b : β) (hfits : ∀ b ∈ q.items, ∀ r ∈ b, Word.Fits (r.offset + 1)) : Draining (ready l q t b) := by
  obtain ⟨-, hqueued, -, hbegun, -, -⟩ := marks_content q.items
  exact ⟨clean_ready l t b hq, by simp [ready, Ingestion.start, Ingestion.load], hl, by simp [ready, hqueued, hbegun], hfits,
    by simp [ready, Worker.start], fun _ => hq, by simp [ready, Worker.start, Worker.ended]⟩

/-- A worker that nobody aborts begins the batches in the order in which they were queued, each when those before it are
through, and ends only without a sender and with nothing left. If no callback runs for ever, everything that is
queued is dispatched, and without a sender the worker ends. -/
theorem worker_drains (l : Listener) {q : BatchQueue} (hq : q.closed = false) (hl : l.abortRequested = false) (t : Tracker)
    (b : β) (σ : Nat → Happening β) (hoffsets : ∀ b, b ∈ q.items ∨ (∃ n, σ n = .offer b) →
      ∀ r ∈ b, Word.least ≤ r.offset ∧ r.offset < Word.greatest) :
    (∀ n s, (ready l q t b).after σ n = s →
      queued s.marks = begun s.marks ++ s.taken.toList ++ s.queue.items ∧
      (∀ p : Partition, p.acts (events s.marks) <+: (begun s.marks).flatMap (p.course l.settings.dispatch)) ∧
      (begun (s.happen (σ n)).marks ≠ begun s.marks → s.call.done ∧ s.HasRun l.settings.dispatch (begun s.marks)) ∧
      (s.worker.ended → s.queue.abandoned ∧ begun s.marks = queued s.marks ∧ s.worker.fault? = none ∧ s.call.done ∧
        s.HasRun l.settings.dispatch (queued s.marks))) ∧
    (Fair (ready l q t b) σ →
      (∀ n, ∃ m s, (ready l q t b).after σ m = s ∧ queued ((ready l q t b).after σ n).marks <+: begun s.marks ∧
        s.HasRun l.settings.dispatch (begun s.marks)) ∧
      ((∃ n, ((ready l q t b).after σ n).queue.abandoned) → ∃ m, ((ready l q t b).after σ m).worker.ended)) := by
  have hfits (x : Batch) (hx : x ∈ q.items ∨ ∃ n, σ n = .offer x) (r : Record) (hr : r ∈ x) : Word.Fits (r.offset + 1) :=
    Batch.fits_next (hoffsets x hx r hr)
  have hready := draining_ready l hq hl t b (fun x hx => hfits x (.inl hx))
  have hdrain (n : Nat) : Draining ((ready l q t b).after σ n) := hready.after (fun n x hx => hfits x (.inr ⟨n, hx⟩)) n
  have hmode (n : Nat) : ((ready l q t b).after σ n).worker.mode = l.settings.dispatch := mode_after _ σ n
  refine ⟨fun n s hs => ⟨?lossless, fun p => ?begun, fun hbegins => ?behind, fun hended => ?ended⟩,
    fun hfair => ⟨fun n => ?drains, ?ends⟩⟩
  case lossless => exact hs ▸ (hdrain n).lossless
  case begun =>
    obtain ⟨left, -, hcourse⟩ := (hdrain n).clean.course
    rw [← hs, ← hmode n, ← hcourse p]
    exact List.prefix_append _ _
  case behind =>
    subst hs
    rw [← hmode n]
    exact begins_behind hdrain hbegins
  case ended =>
    subst hs
    obtain ⟨hp, hcall, htaken, habandoned, hitems, hacts⟩ := (hdrain n).atEnd hended
    have hall : begun ((ready l q t b).after σ n).marks = queued ((ready l q t b).after σ n).marks := by
      simp [(hdrain n).lossless, htaken, hitems]
    rw [← hmode n]
    exact ⟨habandoned, hall, by simp [Worker.fault?, hp], hcall, hall ▸ hacts⟩
  case drains =>
    obtain ⟨m, -, -, hbegun, hacts⟩ := hfair.drains hdrain n
    exact ⟨m, _, rfl, hbegun, hmode m ▸ hacts⟩
  case ends =>
    rintro ⟨n, hn⟩
    obtain ⟨m, -, hended⟩ := hfair.ends_abandoned hdrain hn
    exact ⟨m, hended⟩

theorem ended_after {s : Pipeline β} {σ : Nat → Happening β} {n m : Nat} (hn : (s.after σ n).worker.ended) (hnm : n ≤ m) :
    (s.after σ m).worker.ended := by
  induction m, hnm using Nat.le_induction with
  | base => exact hn
  | succ m hnm ih =>
      rw [after]
      by_cases hwork : ∃ c, σ m = .work c
      · obtain ⟨c, hc⟩ := hwork
        rw [hc]
        exact ((s.after σ m).move_step _).ended ih
      · rw [(beside_happen (s.after σ m) (fun c he => hwork ⟨c, he⟩)).worker]
        exact ih

theorem fair_of_ended {s : Pipeline β} {σ : Nat → Happening β} {n : Nat} (hn : (s.after σ n).worker.ended)
    (hσ : ∀ m, n ≤ m → ∃ c, σ m = .work c) : Fair s σ := by
  have hnone (m i : Nat) (l : Lane) (hm : n ≤ m) : ¬ (s.after σ m).HasLane i l := by
    rintro ⟨d, hp, -⟩
    simpa [Worker.ended, hp] using ended_after hn hm
  exact ⟨fun m => ⟨max m n, le_max_left _ _, hσ _ (le_max_right _ _)⟩,
    fun m i l _ _ _ => ⟨max m n, le_max_left _ _, .inl (hnone _ i l (le_max_right _ _))⟩,
    fun m i l _ _ => ⟨max m n, le_max_left _ _, hnone _ i l (le_max_right _ _)⟩⟩

def oneQueued : BatchQueue where
  capacity := 2
  items := [[queuedRecord 0 4, queuedRecord 1 7, queuedRecord 0 5]]

def graceful : Nat → Happening Connection
  | 4 => .offer [queuedRecord 1 8]
  | 5 => .abandon
  | n => .work { lane := n % 2, rests := n % 5 = 0, outcome := if n % 3 = 0 then none else some .ok }

theorem worker_drains_graceful : ∃ s, (ready narrow oneQueued {} threeRecords).after graceful 40 = s ∧
    queued s.marks = [[queuedRecord 0 4, queuedRecord 1 7, queuedRecord 0 5], [queuedRecord 1 8]] ∧
    begun s.marks = queued s.marks ∧ s.HasRun .single (queued s.marks) ∧
    Fair (ready narrow oneQueued {} threeRecords) graceful ∧
    ∃ m, ((ready narrow oneQueued {} threeRecords).after graceful m).worker.ended := by
  have hended : ((ready narrow oneQueued {} threeRecords).after graceful 40).worker.ended := by decide +kernel
  have hfair : Fair (ready narrow oneQueued {} threeRecords) graceful :=
    fair_of_ended hended (fun m hm => ⟨{ lane := m % 2, rests := m % 5 = 0, outcome := if m % 3 = 0 then none else some .ok }, by
      rw [graceful] <;> omega⟩)
  have hoffsets : ∀ b, b ∈ oneQueued.items ∨ (∃ n, graceful n = .offer b) →
      ∀ r ∈ b, Word.least ≤ r.offset ∧ r.offset < Word.greatest := by
    rintro b (hb | ⟨n, hn⟩)
    · revert b
      decide
    · rw [graceful.eq_def] at hn
      split at hn <;> simp at hn
      subst hn
      decide
  obtain ⟨halways, hfinally⟩ := worker_drains narrow (q := oneQueued) rfl rfl {} threeRecords graceful hoffsets
  obtain ⟨-, -, -, hatEnd⟩ := halways 40 _ rfl
  obtain ⟨-, hbegun, -, -, hrun⟩ := hatEnd hended
  exact ⟨_, rfl, by decide +kernel, hbegun, hrun, hfair, (hfinally hfair).2 ⟨6, by decide +kernel⟩⟩

end Pipeline

end StreamTrigger
