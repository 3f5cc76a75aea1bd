import StreamTrigger.Proofs.Polling

namespace StreamTrigger

/-- A question of the loop, with the answer that it went on with. -/
abbrev Exchange := Question × Answer

def Question.takes : Question → Answer → Bool
  | .stopRequested, .flag _ | .now, .time _ | .poll _, .polled _ | .offer _, .offered _ | .aborted, .looked _ _ => true
  | .assignment, .assigned _ | .pause _, .told _ | .resume _, .told _ | .sleep _, .passed => true
  | .release, .passed | .signal, .flag _ => true
  | _, _ => false

def Question.pressing : Question → Bool
  | .offer _ | .aborted | .assignment | .pause _ | .resume _ => true
  | _ => false

/-- The batch of a flush has left, or what was paused is resumed. -/
def Exchange.settles : Exchange → Bool
  | (.offer _, .offered o) => o != .full
  | (.aborted, .looked _ aborted) => aborted
  | (.resume _, .told _) => true
  | _ => false

/-- What becomes of the paused partitions: a pause that succeeded, or a call to resume. -/
inductive Hold where
  | paused (ps : List Partition)
  | resumed (ps : List Partition)

def Exchange.holds : Exchange → List Hold
  | (.pause ps, .told (.ok _)) => [.paused ps]
  | (.resume ps, .told _) => [.resumed ps]
  | _ => []

theorem Exchange.settles_eq_false {q : Question} (h : q.pressing = false) (a : Answer) : settles (q, a) = false := by
  cases q <;> simp [Question.pressing] at h <;> rfl

theorem Exchange.holds_eq_nil {q : Question} (h : q.pressing = false) (a : Answer) : holds (q, a) = [] := by
  cases q <;> simp [Question.pressing] at h <;> rfl

namespace Talk

def holds (xs : List Exchange) : List Hold := xs.flatMap Exchange.holds

@[simp] theorem holds_append (xs ys : List Exchange) : holds (xs ++ ys) = holds xs ++ holds ys := List.flatMap_append ..

def spell (ps : List Partition) : List Hold := [.paused ps, .resumed ps]

variable (b : Batch) (retry : Nat)

def refusal (capacity : Nat) : List Exchange := [(.offer b, .offered .full), (.aborted, .looked capacity false)]

inductive Settled : List Exchange → Prop where
  | accepted : Settled [(.offer b, .offered .accepted)]
  | closed : Settled [(.offer b, .offered .closed)]
  | aborted (capacity : Nat) : Settled [(.offer b, .offered .full), (.aborted, .looked capacity true)]

/-- A poll between two attempts. One that failed is followed by a rest. -/
inductive Wait : List Exchange → Prop where
  | polled (e : Option PollEvent) : Wait [(.poll retry, .polled (.ok e))]
  | rested (e : BrokerError) : Wait [(.poll retry, .polled (.error e)), (.sleep retry, .passed)]

inductive Setup : List Partition → List Exchange → Prop where
  | unreadable (e : BrokerError) : Setup [] [(.assignment, .assigned (.error e))]
  | unassigned : Setup [] [(.assignment, .assigned (.ok []))]
  | refused (ps : List Partition) (e : BrokerError) (hps : ps ≠ []) :
      Setup [] [(.assignment, .assigned (.ok ps)), (.pause ps, .told (.error e))]
  | paused (ps : List Partition) (hps : ps ≠ []) :
      Setup ps [(.assignment, .assigned (.ok ps)), (.pause ps, .told (.ok ()))]

inductive Ready : List Partition → List Exchange → Prop where
  | first {ps : List Partition} {xs : List Exchange} (capacity : Nat) (h : Setup ps xs) : Ready ps (refusal b capacity ++ xs)
  | again {ps : List Partition} {xs ws : List Exchange} (capacity : Nat) (h : Ready ps xs) (hw : Wait retry ws) :
      Ready ps (xs ++ ws ++ refusal b capacity)

/-- All that comes before one of the attempts. What is paused is not known before the first wait. -/
inductive Before : Option (List Partition) → List Exchange → Prop where
  | nothing : Before none []
  | waited {ps : List Partition} {xs ws : List Exchange} (h : Ready b retry ps xs) (hw : Wait retry ws) :
      Before (some ps) (xs ++ ws)

inductive Release : List Partition → List Exchange → Prop where
  | unpaused : Release [] []
  | resumed (ps : List Partition) (reply : Except BrokerError Unit) (hps : ps ≠ []) : Release ps [(.resume ps, .told reply)]

/-- All that is said in a flush. -/
inductive Whole : List Exchange → Prop where
  | settled {q : Option (List Partition)} {xs ys zs : List Exchange} (h : Before b retry q xs) (hy : Settled b ys)
      (hz : Release (q.getD []) zs) : Whole (xs ++ ys ++ zs)

variable {b retry} {ps : List Partition} {q : Option (List Partition)} {xs : List Exchange}

@[simp] theorem holds_refusal (capacity : Nat) : holds (refusal b capacity) = [] := rfl

theorem Settled.holds (h : Settled b xs) : holds xs = [] := by cases h <;> rfl

theorem Wait.holds (h : Wait retry xs) : holds xs = [] := by cases h <;> rfl

def opened (ps : List Partition) : List Hold := if ps = [] then [] else [.paused ps]

theorem Setup.holds (h : Setup ps xs) : holds xs = opened ps := by
  cases h with
  | unreadable | unassigned | refused => rfl
  | paused ps hps => exact (if_neg hps).symm

theorem Ready.holds (h : Ready b retry ps xs) : holds xs = opened ps := by
  induction h with
  | first capacity h => rw [holds_append, holds_refusal, h.holds, List.nil_append]
  | again capacity h hw ih => rw [holds_append, holds_append, holds_refusal, hw.holds, ih, List.append_nil, List.append_nil]

theorem Before.holds (h : Before b retry q xs) : holds xs = opened (q.getD []) := by
  cases h with
  | nothing => rfl
  | waited h hw => rw [holds_append, hw.holds, h.holds, List.append_nil, Option.getD_some]

theorem Whole.holds (h : Whole b retry xs) : holds xs = [] ∨ ∃ ps, ps ≠ [] ∧ holds xs = spell ps := by
  obtain ⟨h, hy, hz⟩ := h
  rw [holds_append, holds_append, h.holds, hy.holds, List.append_nil]
  generalize Option.getD _ _ = ps at hz
  cases hz with
  | unpaused => exact .inl rfl
  | resumed ps reply hps => exact .inr ⟨ps, hps, by rw [opened, if_neg hps]; rfl⟩

theorem Release.exists (ps : List Partition) : ∃ xs, Release ps xs := by
  cases ps with
  | nil => exact ⟨[], .unpaused⟩
  | cons p ps => exact ⟨_, .resumed (p :: ps) (.ok ()) (List.cons_ne_nil p ps)⟩

theorem Settled.finish {ys : List Exchange} (h : Before b retry q xs) (hy : Settled b ys) : ∃ zs, Whole b retry (xs ++ ys ++ zs) :=
  (Release.exists (q.getD [])).imp (fun _ hz => .settled h hy hz)

theorem Before.finish (h : Before b retry q xs) : ∃ ys, Whole b retry (xs ++ ys) := by
  obtain ⟨zs, hz⟩ := Settled.finish h .accepted
  exact ⟨_, List.append_assoc .. ▸ hz⟩

theorem Ready.finish (h : Ready b retry ps xs) : ∃ ys, Whole b retry (xs ++ ys) := by
  obtain ⟨ys, hy⟩ := (Before.waited h (.polled none)).finish
  exact ⟨_, List.append_assoc .. ▸ hy⟩

end Talk

/-- A part of a run: something said outside of flushes, or all that is said in one flush. -/
inductive Episode where
  | aside (x : Exchange)
  | flush (xs : List Exchange)

namespace Episode

open Talk

def talk : Episode → List Exchange
  | aside x => [x]
  | flush xs => xs

/-- Outside of flushes the loop says nothing of its batches and of the assignment. -/
def Regular (retry : Nat) : Episode → Prop
  | aside x => x.1.pressing = false
  | flush xs => ∃ b, Whole b retry xs

variable {retry : Nat}

theorem Regular.holds {e : Episode} (h : e.Regular retry) : holds e.talk = [] ∨ ∃ ps, ps ≠ [] ∧ holds e.talk = spell ps := by
  cases e with
  | aside x => exact .inl ((List.append_nil _).trans (Exchange.holds_eq_nil h x.2))
  | flush xs => exact h.elim (fun b hb => hb.holds)

theorem holds_talk {es : List Episode} (h : ∀ e ∈ es, e.Regular retry) :
    ∃ pss : List (List Partition), (∀ ps ∈ pss, ps ≠ []) ∧ holds (es.flatMap talk) = pss.flatMap spell := by
  induction es with
  | nil => exact ⟨[], nofun, rfl⟩
  | cons e es ih =>
      obtain ⟨he, hes⟩ := List.forall_mem_cons.mp h
      obtain ⟨pss, hpss, hes⟩ := ih hes
      rcases he.holds with he | ⟨ps, hps, he⟩
      · exact ⟨pss, hpss, by rw [List.flatMap_cons, holds_append, he, hes, List.nil_append]⟩
      · refine ⟨ps :: pss, List.forall_mem_cons.mpr ⟨hps, hpss⟩, ?_⟩
        rw [List.flatMap_cons, holds_append, he, hes, List.flatMap_cons]

end Episode

namespace Ingestion

open Talk

/-- What is said when the loop hears an answer. An answer to another question is not heard. -/
def exchange (l : Ingestion) (a : Answer) : List Exchange :=
  match l.asks with
  | some q => if q.takes a then [(q, a)] else []
  | none => []

def exchanges (l : Ingestion) : List Answer → List Exchange
  | [] => []
  | a :: as => l.exchange a ++ (l.step a).1.exchanges as

def resuming (l : Ingestion) : Bool :=
  match l.phase with
  | .flushing _ (.resuming _ _) => true
  | _ => false

/-- A flush ends when its batch has left, unless the loop then asks to resume. -/
def concludes (l : Ingestion) (a : Answer) : Bool := (l.exchange a).any Exchange.settles && !(l.step a).1.resuming

/-- What has been said in the flush under way, for each place where the loop can stand. -/
inductive Underway (l : Ingestion) : List Exchange → Prop where
  | none (hp : l.flushing = false) : Underway l []
  | offering {r : Resume} {xs : List Exchange} (hp : l.phase = .flushing r .offering)
      (h : Before l.flush.batch l.settings.retry l.paused xs) : Underway l xs
  | looking {r : Resume} {xs : List Exchange} (hp : l.phase = .flushing r .looking)
      (h : Before l.flush.batch l.settings.retry l.paused xs) : Underway l (xs ++ [(.offer l.flush.batch, .offered .full)])
  | assigning {r : Resume} {capacity : Nat} (hp : l.phase = .flushing r .assigning) :
      Underway l (refusal l.flush.batch capacity)
  | pausing {r : Resume} {capacity : Nat} {ps : List Partition} (hp : l.phase = .flushing r (.pausing ps)) (hps : ps ≠ []) :
      Underway l (refusal l.flush.batch capacity ++ [(.assignment, .assigned (.ok ps))])
  | polling {r : Resume} {ps : List Partition} {xs : List Exchange} (hp : l.phase = .flushing r .polling)
      (hq : l.paused = some ps) (h : Ready l.flush.batch l.settings.retry ps xs) : Underway l xs
  | resting {r : Resume} {ps : List Partition} {xs : List Exchange} {e : BrokerError} (hp : l.phase = .flushing r .resting)
      (hq : l.paused = some ps) (h : Ready l.flush.batch l.settings.retry ps xs) :
      Underway l (xs ++ [(.poll l.settings.retry, .polled (.error e))])
  | resuming {r : Resume} {o : FlushOutcome} {ps : List Partition} {xs ys : List Exchange}
      (hp : l.phase = .flushing r (.resuming ps o)) (hps : ps ≠ [])
      (h : Before l.flush.batch l.settings.retry (some ps) xs) (hy : Settled l.flush.batch ys) : Underway l (xs ++ ys)

theorem underway_resume (l : Ingestion) (delivered : Bool) (r : Resume) : Underway (l.resume delivered r) [] := by
  unfold resume
  split
  · exact .none rfl
  · exact .none rfl
  · exact .none rfl
  · split
    · exact .none rfl
    · exact .offering rfl .nothing

theorem underway_beginFlush (l : Ingestion) (r : Resume) : Underway (l.beginFlush r) [] := by
  rw [beginFlush]
  split
  · exact underway_resume l true r
  · exact .offering rfl .nothing

theorem underway_concludeFlush (l : Ingestion) (r : Resume) (o : FlushOutcome) : Underway (l.concludeFlush r o).1 [] := by
  cases o <;> exact underway_resume _ _ r

theorem not_resuming_resume (l : Ingestion) (delivered : Bool) (r : Resume) : (l.resume delivered r).resuming = false := by
  unfold resume
  split
  · rfl
  · rfl
  · rfl
  · split <;> rfl

theorem not_resuming_concludeFlush (l : Ingestion) (r : Resume) (o : FlushOutcome) :
    (l.concludeFlush r o).1.resuming = false := by
  cases o <;> exact not_resuming_resume _ _ r

variable {l : Ingestion} {xs : List Exchange} {a : Answer}

theorem exchange_of_asks {q : Question} (hq : l.asks = some q) (ht : q.takes a) : l.exchange a = [(q, a)] := by
  simp [exchange, hq, ht]

theorem heard_of_ne_nil (h : l.exchange a ≠ []) : ∃ q, l.asks = some q ∧ q.takes a := by
  rw [exchange] at h
  split at h
  · next q hq => exact ⟨q, hq, by simpa using h⟩
  · exact absurd rfl h

theorem step_unheard (h : l.exchange a = []) : (l.step a).1 = l := by
  unfold step
  split
  case h_10 r p hp =>
    unfold stepFlush
    split
    case h_13 => rfl
    all_goals simp [exchange, asks, hp, Question.takes] at h
  case h_13 => rfl
  all_goals simp_all [exchange, asks, Question.takes]

inductive Advance (l : Ingestion) (xs : List Exchange) (a : Answer) : Prop where
  | finished (hl : l.flushing = true) (hc : l.concludes a = true) (h : Whole l.flush.batch l.settings.retry (xs ++ l.exchange a))
      (h' : Underway (l.step a).1 [])
  | further (hl : l.flushing = true) (hc : l.concludes a = false) (h' : Underway (l.step a).1 (xs ++ l.exchange a))
  | aside (hl : l.flushing = false) (hc : l.concludes a = false) (hx : ∀ x ∈ l.exchange a, x.1.pressing = false)
      (h' : Underway (l.step a).1 [])

theorem flushing_of_phase {r : Resume} {p : FlushPhase} (hp : l.phase = .flushing r p) : l.flushing = true := by
  simp [flushing, hp]

theorem step_flushing {r : Resume} {p : FlushPhase} (hp : l.phase = .flushing r p) (a : Answer) :
    (l.step a).1 = (l.stepFlush r p a).1 := by simp only [step, hp]

theorem advance_endFlush {r : Resume} {o : FlushOutcome} {ys zs : List Exchange} (hl : l.flushing = true)
    (h : Before l.flush.batch l.settings.retry l.paused ys) (hz : Settled l.flush.batch zs)
    (hxs : xs ++ l.exchange a = ys ++ zs) (hs : (l.exchange a).any Exchange.settles = true)
    (hstep : (l.step a).1 = (l.endFlush r o).1) : Advance l xs a := by
  by_cases hq : l.paused.getD [] = []
  · have hend : (l.step a).1 = (l.concludeFlush r o).1 := by
      rw [hstep, endFlush]
      split
      · next p ps hp => simp [hp] at hq
      · rfl
    refine .finished hl ?_ ?_ (hend ▸ underway_concludeFlush l r o)
    · simp [concludes, hs, hend, not_resuming_concludeFlush]
    · have hrelease : Release (l.paused.getD []) [] := by rw [hq]; exact .unpaused
      have hwhole := Whole.settled h hz hrelease
      rwa [List.append_nil, ← hxs] at hwhole
  -- The resume is still to be said, so the flush goes on although its batch has left.
  · obtain ⟨p, ps, hp⟩ : ∃ p ps, l.paused = some (p :: ps) := by
      rcases hp : l.paused with _ | _ | ⟨p, ps⟩ <;> simp [hp] at hq ⊢
    have hend : (l.step a).1 = l.goTo (.flushing r (.resuming (p :: ps) o)) := by simp [hstep, endFlush, hp]
    refine .further hl ?_ ?_
    · simp [concludes, hend, resuming, goTo]
    · rw [hend, hxs]
      exact .resuming rfl (List.cons_ne_nil p ps) (hp ▸ h) hz

theorem advance_offering {r : Resume} (hp : l.phase = .flushing r .offering)
    (h : Before l.flush.batch l.settings.retry l.paused xs) (o : Offer) : Advance l xs (.offered o) := by
  have hl := flushing_of_phase hp
  have hx : l.exchange (.offered o) = [(.offer l.flush.batch, .offered o)] := by simp [exchange, asks, hp, Question.takes]
  have hstep := step_flushing hp (.offered o)
  cases o with
  | accepted => exact advance_endFlush hl h .accepted (by rw [hx]) (by simp [hx, Exchange.settles]) hstep
  | closed => exact advance_endFlush hl h .closed (by rw [hx]) (by simp [hx, Exchange.settles]) hstep
  | full =>
      refine .further hl (by simp [concludes, hx, Exchange.settles]) ?_
      rw [hx, hstep]
      exact .looking rfl h

theorem advance_looking {r : Resume} (hp : l.phase = .flushing r .looking)
    (h : Before l.flush.batch l.settings.retry l.paused xs) (capacity : Nat) (aborted : Bool) :
    Advance l (xs ++ [(.offer l.flush.batch, .offered .full)]) (.looked capacity aborted) := by
  have hl := flushing_of_phase hp
  have hx : l.exchange (.looked capacity aborted) = [(.aborted, .looked capacity aborted)] := by
    simp [exchange, asks, hp, Question.takes]
  have hstep := step_flushing hp (.looked capacity aborted)
  cases aborted with
  | true => exact advance_endFlush hl h (.aborted capacity) (by simp [hx]) (by simp [hx, Exchange.settles]) hstep
  | false =>
      refine .further hl (by simp [concludes, hx, Exchange.settles]) ?_
      rw [hx, hstep, List.append_assoc]
      generalize hq : l.paused = q at h
      cases h with
      | nothing =>
          simp only [stepFlush, Flush.looked, move, hq]
          exact .assigning rfl
      | waited h hw =>
          simp only [stepFlush, Flush.looked, move, hq]
          exact .polling rfl rfl (.again capacity h hw)

theorem advance_assigning {r : Resume} (hp : l.phase = .flushing r .assigning) (capacity : Nat)
    (reply : Except BrokerError (List Partition)) : Advance l (refusal l.flush.batch capacity) (.assigned reply) := by
  have hx : l.exchange (.assigned reply) = [(.assignment, .assigned reply)] := by simp [exchange, asks, hp, Question.takes]
  refine .further (flushing_of_phase hp) (by simp [concludes, hx, Exchange.settles]) ?_
  rw [hx, step_flushing hp]
  rcases reply with e | _ | ⟨p, ps⟩
  · exact .polling rfl rfl (.first capacity (.unreadable e))
  · exact .polling rfl rfl (.first capacity .unassigned)
  · exact .pausing rfl (List.cons_ne_nil p ps)

theorem advance_pausing {r : Resume} {ps : List Partition} (hp : l.phase = .flushing r (.pausing ps)) (hps : ps ≠ [])
    (capacity : Nat) (reply : Except BrokerError Unit) :
    Advance l (refusal l.flush.batch capacity ++ [(.assignment, .assigned (.ok ps))]) (.told reply) := by
  have hx : l.exchange (.told reply) = [(.pause ps, .told reply)] := by simp [exchange, asks, hp, Question.takes]
  refine .further (flushing_of_phase hp) (by simp [concludes, hx, Exchange.settles]) ?_
  rw [hx, step_flushing hp, List.append_assoc]
  cases reply with
  | error e => exact .polling rfl rfl (.first capacity (.refused ps e hps))
  | ok => exact .polling rfl rfl (.first capacity (.paused ps hps))

theorem advance_polling {r : Resume} {ps : List Partition} (hp : l.phase = .flushing r .polling) (hq : l.paused = some ps)
    (h : Ready l.flush.batch l.settings.retry ps xs) (reply : Except BrokerError (Option PollEvent)) :
    Advance l xs (.polled reply) := by
  have hx : l.exchange (.polled reply) = [(.poll l.settings.retry, .polled reply)] := by
    simp [exchange, asks, hp, Question.takes]
  refine .further (flushing_of_phase hp) (by simp [concludes, hx, Exchange.settles]) ?_
  rw [hx, step_flushing hp]
  have hattempt (e : Option PollEvent) := hq ▸ Before.waited h (.polled e)
  rcases reply with e | _ | x | p
  · exact .resting rfl hq h
  · exact .offering rfl (hattempt none)
  · exact .offering rfl (hattempt (some (.record x)))
  · exact .offering rfl (hattempt (some (.endOfPartition p)))

theorem advance_resting {r : Resume} {ps : List Partition} {e : BrokerError} (hp : l.phase = .flushing r .resting)
    (hq : l.paused = some ps) (h : Ready l.flush.batch l.settings.retry ps xs) :
    Advance l (xs ++ [(.poll l.settings.retry, .polled (.error e))]) .passed := by
  have hx : l.exchange .passed = [(.sleep l.settings.retry, .passed)] := by simp [exchange, asks, hp, Question.takes]
  refine .further (flushing_of_phase hp) (by simp [concludes, hx, Exchange.settles]) ?_
  rw [hx, step_flushing hp, List.append_assoc]
  exact .offering rfl (hq ▸ Before.waited h (.rested e))

theorem advance_resuming {r : Resume} {o : FlushOutcome} {ps : List Partition} {ys : List Exchange}
    (hp : l.phase = .flushing r (.resuming ps o)) (hps : ps ≠ [])
    (h : Before l.flush.batch l.settings.retry (some ps) xs) (hy : Settled l.flush.batch ys)
    (reply : Except BrokerError Unit) : Advance l (xs ++ ys) (.told reply) := by
  have hx : l.exchange (.told reply) = [(.resume ps, .told reply)] := by simp [exchange, asks, hp, Question.takes]
  have hend : (l.step (.told reply)).1 = (l.concludeFlush r o).1 := step_flushing hp _
  refine .finished (flushing_of_phase hp) ?_ ?_ (hend ▸ underway_concludeFlush l r o)
  · simp [concludes, hx, Exchange.settles, hend, not_resuming_concludeFlush]
  · rw [hx]
    exact .settled h hy (.resumed ps reply hps)

theorem not_pressing_of_asks {q : Question} (hl : l.flushing = false) (hq : l.asks = some q) : q.pressing = false := by
  cases hp : l.phase with
  | flushing r p => simp [flushing, hp] at hl
  | _ => simp [asks, hp] at hq <;> subst hq <;> rfl

theorem underway_stepPolled (l : Ingestion) (start : Nat) (reply : Except BrokerError (Option PollEvent)) :
    Underway (l.stepPolled start reply).1 [] := by
  rcases reply with e | _ | x | p
  · exact .none rfl
  · exact .none rfl
  · simp only [stepPolled]
    split
    · exact underway_beginFlush _ _
    · exact .none rfl
  · exact .none rfl

theorem underway_step_aside (hl : l.flushing = false) (a : Answer) : Underway (l.step a).1 [] := by
  cases l.step_spec a with
  | between hl h => exact .none h.flushing
  | polls hp ha h' => exact h' ▸ underway_stepPolled ..
  | begins hl hn hm h' => exact h' ▸ underway_beginFlush ..
  | within hp | leaves hp | resumed hp => simp [flushing_of_phase hp] at hl

theorem Underway.eq_nil (h : Underway l xs) (hl : l.flushing = false) : xs = [] := by
  cases h with
  | none => rfl
  | _ hp => simp [flushing, hp] at hl

theorem Underway.advance (h : Underway l xs) (a : Answer) : Advance l xs a := by
  -- What is not heard changes nothing. What is heard answers the question of the place where the loop stands.
  by_cases hx : l.exchange a = []
  · have hc : l.concludes a = false := by simp [concludes, hx]
    have hl := step_unheard hx
    cases hf : l.flushing with
    | true => exact .further hf hc (by rwa [hx, hl, List.append_nil])
    | false => exact .aside hf hc (by simp [hx]) (by rw [hl]; exact .none hf)
  · obtain ⟨q, hq, ht⟩ := heard_of_ne_nil hx
    cases h with
    | none hl =>
        have hno := not_pressing_of_asks hl hq
        refine .aside hl ?_ ?_ (underway_step_aside hl a)
        · simp [concludes, exchange_of_asks hq ht, Exchange.settles_eq_false hno a]
        · simpa [exchange_of_asks hq ht] using hno
    | offering hp h =>
        obtain rfl : .offer l.flush.batch = q := by simpa [asks, hp] using hq
        cases a with
        | offered o => exact advance_offering hp h o
        | _ => cases ht
    | looking hp h =>
        obtain rfl : .aborted = q := by simpa [asks, hp] using hq
        cases a with
        | looked capacity aborted => exact advance_looking hp h capacity aborted
        | _ => cases ht
    | assigning hp =>
        obtain rfl : .assignment = q := by simpa [asks, hp] using hq
        cases a with
        | assigned reply => exact advance_assigning hp _ reply
        | _ => cases ht
    | pausing hp hps =>
        obtain rfl : .pause _ = q := by simpa [asks, hp] using hq
        cases a with
        | told reply => exact advance_pausing hp hps _ reply
        | _ => cases ht
    | polling hp hp' h =>
        obtain rfl : .poll l.settings.retry = q := by simpa [asks, hp] using hq
        cases a with
        | polled reply => exact advance_polling hp hp' h reply
        | _ => cases ht
    | resting hp hp' h =>
        obtain rfl : .sleep l.settings.retry = q := by simpa [asks, hp] using hq
        cases a with
        | passed => exact advance_resting hp hp' h
        | _ => cases ht
    | resuming hp hps h hy =>
        obtain rfl : .resume _ = q := by simpa [asks, hp] using hq
        cases a with
        | told reply => exact advance_resuming hp hps h hy reply
        | _ => cases ht

/-- A flush under way can come to an end, whatever it waits for. -/
theorem Underway.finish (h : Underway l xs) : ∃ b ys, Whole b l.settings.retry (xs ++ ys) := by
  refine ⟨l.flush.batch, ?_⟩
  cases h with
  | none => exact Before.nothing.finish
  | offering hp h => exact h.finish
  | looking hp h =>
      obtain ⟨ys, hy⟩ := Settled.finish h (.aborted 0)
      exact ⟨.cons _ ys, by simpa using hy⟩
  | assigning hp =>
      obtain ⟨ys, hy⟩ := (Ready.first _ .unassigned).finish
      exact ⟨_, List.append_assoc .. ▸ hy⟩
  | pausing hp hps =>
      obtain ⟨ys, hy⟩ := (Ready.first _ (.paused _ hps)).finish
      exact ⟨.cons _ ys, by simpa using hy⟩
  | polling hp hq h => exact h.finish
  | resting hp hq h =>
      obtain ⟨ys, hy⟩ := (Before.waited h (.rested _)).finish
      exact ⟨.cons _ ys, by simpa using hy⟩
  | resuming hp hps h hy => exact Settled.finish h hy

theorem Underway.holds (h : Underway l xs) : ∃ ps, (l.flushing = false → ps = []) ∧ holds xs = opened ps := by
  cases hf : l.flushing with
  | false => exact ⟨[], fun _ => rfl, by rw [h.eq_nil hf]; rfl⟩
  | true =>
      suffices hx : ∃ ps, Talk.holds xs = opened ps from hx.imp (fun _ hx => ⟨nofun, hx⟩)
      cases h with
      | none hl => exact ⟨[], rfl⟩
      | offering hp h => exact ⟨_, h.holds⟩
      | looking hp h => exact ⟨_, by rw [holds_append, h.holds]; exact List.append_nil _⟩
      | assigning hp => exact ⟨[], rfl⟩
      | pausing hp hps => exact ⟨[], rfl⟩
      | polling hp hq h => exact ⟨_, h.holds⟩
      | resting hp hq h => exact ⟨_, by rw [holds_append, h.holds]; exact List.append_nil _⟩
      | resuming hp hps h hy => exact ⟨_, by rw [holds_append, hy.holds, h.holds, List.append_nil]⟩

def episodes (l : Ingestion) (xs : List Exchange) : List Answer → List Episode × List Exchange
  | [] => ([], xs)
  | a :: as =>
      if l.concludes a then
        let (es, ys) := (l.step a).1.episodes [] as
        (.flush (xs ++ l.exchange a) :: es, ys)
      else if l.flushing then (l.step a).1.episodes (xs ++ l.exchange a) as
      else
        let (es, ys) := (l.step a).1.episodes xs as
        ((l.exchange a).map .aside ++ es, ys)

structure Account (l : Ingestion) (xs : List Exchange) (as : List Answer) (es : List Episode) (ys : List Exchange) : Prop where
  talk : xs ++ l.exchanges as = es.flatMap Episode.talk ++ ys
  regular : ∀ e ∈ es, e.Regular l.settings.retry
  underway : Underway (l.run as).1 ys

theorem account {l : Ingestion} {xs : List Exchange} (h : Underway l xs) (as : List Answer) :
    Account l xs as (l.episodes xs as).1 (l.episodes xs as).2 := by
  induction as generalizing l xs with
  | nil => exact ⟨by simp [exchanges, episodes], by simp [episodes], h⟩
  | cons a as ih =>
      cases h.advance a with
      | finished hl hc hw h' =>
          obtain ⟨ht, hr, hu⟩ := ih h'
          rw [settings_step] at hr
          simp only [episodes, hc, if_true]
          refine ⟨?_, ?_, hu⟩
          · rw [exchanges, List.flatMap_cons, List.append_assoc, ← ht]
            simp [Episode.talk]
          · rw [List.forall_mem_cons]
            exact ⟨⟨_, hw⟩, hr⟩
      | further hl hc h' =>
          obtain ⟨ht, hr, hu⟩ := ih h'
          rw [settings_step] at hr
          simp only [episodes, hc, hl, if_true]
          exact ⟨by rwa [exchanges, ← List.append_assoc], hr, hu⟩
      | aside hl hc hx h' =>
          -- Between flushes nothing is left over of a flush.
          obtain rfl := h.eq_nil hl
          obtain ⟨ht, hr, hu⟩ := ih h'
          rw [settings_step] at hr
          simp only [episodes, hc, hl, Bool.false_eq_true, if_false]
          refine ⟨?_, ?_, hu⟩
          · have htalk : ((l.exchange a).map Episode.aside).flatMap Episode.talk = l.exchange a := by
              simp [List.flatMap_map, Episode.talk]
            rw [exchanges, List.flatMap_append, htalk, List.append_assoc, ← ht, List.nil_append, List.nil_append]
          · intro e he
            rcases List.mem_append.mp he with he | he
            · obtain ⟨x, hmem, rfl⟩ := List.mem_map.mp he
              exact hx x hmem
            · exact hr e he

/-- A run is a series of flushes with other talk between them. Each flush asks for the assignment at most once, pauses
what it was told and resumes what it paused; the other talk does none of this. So over the whole run pauses that
succeeded and calls to resume alternate, and whenever no flush is under way all that was paused has been resumed. -/
theorem pauses_paired (s : ListenerSettings) (as : List Answer) :
    let l := (start s).1
    let es := (l.episodes [] as).1
    let xs := (l.episodes [] as).2
    l.exchanges as = es.flatMap Episode.talk ++ xs ∧
      (∀ e ∈ es, e.Regular s.retry) ∧
      (∃ b ys, Whole b s.retry (xs ++ ys)) ∧
      ((l.run as).1.flushing = false → xs = []) ∧
      ∃ (pss : List (List Partition)) (ps : List Partition), (∀ ps ∈ pss, ps ≠ []) ∧
        holds (l.exchanges as) = pss.flatMap spell ++ opened ps ∧
        ((l.run as).1.flushing = false → ps = []) := by
  intro l es xs
  obtain ⟨ht, hr, hu⟩ := account (l := l) (.none rfl) as
  obtain ⟨pss, hpss, hes⟩ := Episode.holds_talk hr
  obtain ⟨ps, hps, hxs⟩ := hu.holds
  refine ⟨ht, hr, ?_, hu.eq_nil, pss, ps, hpss, ?_, hps⟩
  · have hend := hu.finish
    rwa [settings_run] at hend
  · rw [← List.nil_append (l.exchanges as), ht, holds_append, hes, hxs]

end Ingestion

end StreamTrigger
