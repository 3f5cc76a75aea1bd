import StreamTrigger.Proofs.Membership
import StreamTrigger.Proofs.Pausing

namespace StreamTrigger

open Talk

namespace Talk

def waits (xs : List Exchange) : Bool := xs.any (fun x => match x.1 with
  | .poll _ => true
  | _ => false)

@[simp] theorem waits_append (xs ys : List Exchange) : waits (xs ++ ys) = (waits xs || waits ys) := List.any_append

/-- A broker answers with these partitions when it is asked for the assignment, and can pause them. -/
structure Assigned (ps : List Partition) (xs : List Exchange) : Prop where
  assignment : ∀ x ∈ xs, x.1 = .assignment → x.2 = .assigned (.ok ps)
  pause : ∀ x ∈ xs, ∀ qs, x.1 = .pause qs → x.2 = .told (.ok ())

variable {b : Batch} {retry : Nat} {ps : List Partition} {q : Option (List Partition)} {xs ys : List Exchange}

theorem Assigned.nil (ps : List Partition) : Assigned ps [] := ⟨by simp, by simp⟩

theorem Assigned.append (hx : Assigned ps xs) (hy : Assigned ps ys) : Assigned ps (xs ++ ys) where
  assignment := List.forall_mem_append.mpr ⟨hx.assignment, hy.assignment⟩
  pause := List.forall_mem_append.mpr ⟨hx.pause, hy.pause⟩

theorem Assigned.left (h : Assigned ps (xs ++ ys)) : Assigned ps xs :=
  ⟨(List.forall_mem_append.mp h.assignment).1, (List.forall_mem_append.mp h.pause).1⟩

theorem Assigned.right (h : Assigned ps (xs ++ ys)) : Assigned ps ys :=
  ⟨(List.forall_mem_append.mp h.assignment).2, (List.forall_mem_append.mp h.pause).2⟩

theorem Setup.eq_assigned {qs : List Partition} (h : Setup qs xs) (ha : Assigned ps xs) : qs = ps := by
  cases h with
  | unreadable e => cases ha.assignment _ List.mem_cons_self rfl
  | refused qs e hqs => cases ha.pause _ (List.mem_cons_of_mem _ List.mem_cons_self) _ rfl
  | unassigned | paused =>
      cases ha.assignment _ List.mem_cons_self rfl
      rfl

theorem Ready.eq_assigned {qs : List Partition} (h : Ready b retry qs xs) (ha : Assigned ps xs) : qs = ps := by
  induction h with
  | first capacity h => exact h.eq_assigned ha.right
  | again capacity h hw ih => exact ih ha.left.left

theorem Wait.waits (h : Wait retry xs) : waits xs = true := by cases h <;> rfl

theorem Settled.waits (h : Settled b xs) : waits xs = false := by cases h <;> rfl

theorem holds_eq (h : Whole b retry xs) (ha : Assigned ps xs) :
    holds xs = if waits xs = true ∧ ps ≠ [] then spell ps else [] := by
  obtain ⟨h, hy, hz⟩ := h
  cases h with
  | nothing =>
      cases hz with
      | unpaused => rw [List.nil_append, List.append_nil, hy.holds, hy.waits]; rfl
      | resumed qs reply hqs => exact absurd rfl hqs
  | waited h hw =>
      obtain rfl := h.eq_assigned ha.left.left.left
      rw [Option.getD_some] at hz
      simp only [holds_append, waits_append, h.holds, hw.holds, hy.holds, hw.waits, Bool.or_true, Bool.true_or, true_and]
      cases hz with
      | unpaused => rfl
      | resumed qs reply hqs =>
          rw [opened, if_neg hqs, if_pos hqs]
          rfl

end Talk

def Hold.apply (ns : List Int) : Hold → List Int
  | .paused ps => ps.foldl (fun l p => if l.contains p.number then l else l ++ [p.number]) ns
  | .resumed ps => ns.filter (fun n => !ps.any (fun p => p.number == n))

theorem filter_apply_paused {P : Int → Bool} {ps : List Partition} (h : ∀ p ∈ ps, P p.number = false) (ns : List Int) :
    (Hold.apply ns (.paused ps)).filter P = ns.filter P := by
  simp only [Hold.apply]
  induction ps generalizing ns with
  | nil => rfl
  | cons p ps ih =>
      obtain ⟨hp, hps⟩ := List.forall_mem_cons.mp h
      rw [List.foldl_cons, ih hps]
      split
      · rfl
      · simp [hp]

theorem foldl_spell (ps : List Partition) (ns : List Int) :
    (spell ps).foldl Hold.apply ns = ns.filter (fun n => n ∉ ps.map Partition.number) := by
  have hnumber (n : Int) : (!ps.any (fun p => p.number == n)) = decide (n ∉ ps.map Partition.number) := by
    rw [Bool.eq_iff_iff]
    simp
  simp only [spell, List.foldl_cons, List.foldl_nil, Hold.apply, hnumber]
  exact filter_apply_paused (fun p hp => by simpa using ⟨p, hp, rfl⟩) ns

theorem Member.scan_paused (m : Member) (c : Cluster) (ps : List Nat) :
    (m.scan c ps).1.paused = m.paused ∧ (m.scan c ps).1.closed = m.closed := by
  induction ps generalizing m with
  | nil => exact ⟨rfl, rfl⟩
  | cons p ps ih =>
      rw [scan]
      split
      · exact ih m
      · split
        · exact ih m
        · next l hl =>
            have hv : (m.visit c p l).1.paused = m.paused ∧ (m.visit c p l).1.closed = m.closed := by
              simp only [visit]
              split
              · exact ⟨rfl, rfl⟩
              · split <;> exact ⟨rfl, rfl⟩
            split
            · next m' e he =>
                rw [he] at hv
                exact hv
            · next m' he =>
                rw [he] at hv
                exact ⟨(ih m').1.trans hv.1, (ih m').2.trans hv.2⟩

namespace Connection

structure Hears (s : Connection) (xs : List Exchange) (s' : Connection) : Prop where
  assignment : s'.assignment = s.assignment
  assigned : Assigned s.assignment xs
  paused : s'.member.paused = (holds xs).foldl Hold.apply s.member.paused

variable {s s' s'' : Connection} {xs ys : List Exchange}

theorem Hears.refl (s : Connection) : Hears s [] s := ⟨rfl, .nil _, rfl⟩

theorem Hears.trans (h : Hears s xs s') (h' : Hears s' ys s'') : Hears s (xs ++ ys) s'' where
  assignment := h'.assignment.trans h.assignment
  assigned := h.assigned.append (h.assignment ▸ h'.assigned)
  paused := by rw [h'.paused, h.paused, holds_append, List.foldl_append]

/-- Others may do anything to a member, but for its pauses and its assignment. -/
def Discreet (f : Connection → Connection) : Prop := ∀ s, Hears s [] (f s)

theorem assignment_congr (hc : s'.member.closed = s.member.closed) (ht : s'.cluster.topic = s.cluster.topic)
    (hn : s'.cluster.size = s.cluster.size) : s'.assignment = s.assignment := by
  simp only [assignment, hc, hn, Cluster.partition, ht]

theorem hears_poll (s : Connection) (wait : Nat) : Hears s [(.poll wait, .polled s.poll.2)] s.poll.1 := by
  have hsame : s.poll.1.member.paused = s.member.paused ∧ s.poll.1.assignment = s.assignment := by
    rw [poll]
    split
    · exact ⟨rfl, rfl⟩
    · have hsize := s.steady_flush.size
      dsimp only
      split
      · exact ⟨rfl, assignment_congr rfl s.steady_flush.topic hsize⟩
      · obtain ⟨hp, hc⟩ := s.flush.member.scan_paused s.flush.cluster (s.flush.member.round s.flush.cluster)
        exact ⟨hp, assignment_congr hc s.steady_flush.topic hsize⟩
  exact ⟨hsame.2, ⟨by simp, by simp⟩, hsame.1⟩

end Connection

namespace Ingestion

/-- What the loop asks of the broker the broker answers, the rest is answered elsewhere. -/
def consult {β : Type} [Broker β] (l : Ingestion) (b : β) (a : Answer) : β × Answer :=
  match l.asks with
  | some (.poll wait) => ((Broker.poll b wait).1, .polled (Broker.poll b wait).2)
  | some .assignment => ((Broker.assignment b).1, .assigned (Broker.assignment b).2)
  | some (.pause ps) => ((Broker.pause b ps).1, .told (Broker.pause b ps).2)
  | some (.resume ps) => ((Broker.resume b ps).1, .told (Broker.resume b ps).2)
  | _ => (b, a)

/-- A flush up to its end, over a broker on which others act before each answer. -/
def flushOver {β : Type} [Broker β] (l : Ingestion) (b : β) : List ((β → β) × Answer) → Option (β × List Exchange)
  | [] => none
  | (f, a) :: steps =>
      let (b, a) := l.consult (f b) a
      if l.concludes a then some (b, l.exchange a)
      else ((l.step a).1.flushOver b steps).map (fun (b, xs) => (b, l.exchange a ++ xs))

variable {l : Ingestion} {xs : List Exchange} {s s' : Connection}

theorem hears_consult (l : Ingestion) (s : Connection) (a : Answer) :
    s.Hears (l.exchange (l.consult s a).2) (l.consult s a).1 := by
  cases hq : l.asks with
  | none => simpa [consult, exchange, hq] using Connection.Hears.refl s
  | some q =>
      cases q with
      | poll wait =>
          simp only [consult, hq, exchange, Question.takes, if_true]
          exact s.hears_poll wait
      | assignment =>
          simp only [consult, hq, exchange, Question.takes, if_true]
          exact ⟨rfl, ⟨by simp [Broker.assignment], by simp⟩, rfl⟩
      | pause ps =>
          simp only [consult, hq, exchange, Question.takes, if_true]
          exact ⟨rfl, ⟨by simp, by simp [Broker.pause]⟩, rfl⟩
      | resume ps =>
          simp only [consult, hq, exchange, Question.takes, if_true]
          exact ⟨rfl, ⟨by simp, by simp⟩, rfl⟩
      | _ =>
          simp only [consult, hq, exchange]
          split
          · exact ⟨rfl, ⟨by simp, by simp⟩, rfl⟩
          · exact .refl s

theorem flushing_step (hl : l.flushing = true) {a : Answer} (h : Underway (l.step a).1 (xs ++ l.exchange a)) :
    (l.step a).1.flushing = true := by
  cases hf : (l.step a).1.flushing with
  | true => rfl
  | false =>
      rw [step_unheard (List.append_eq_nil_iff.mp (h.eq_nil hf)).2, hl] at hf
      exact hf.symm

theorem flushOver_spec {steps : List ((Connection → Connection) × Answer)} (h : Underway l xs) (hl : l.flushing = true)
    (hd : ∀ x ∈ steps, Connection.Discreet x.1) {ys : List Exchange} (hover : l.flushOver s steps = some (s', ys)) :
    (∃ b, Whole b l.settings.retry (xs ++ ys)) ∧ s.Hears ys s' := by
  induction steps generalizing l s xs ys with
  | nil => cases hover
  | cons x steps ih =>
      obtain ⟨f, a⟩ := x
      obtain ⟨hf, hsteps⟩ := List.forall_mem_cons.mp hd
      have hears := (hf s).trans (l.hears_consult (f s) a)
      simp only [flushOver] at hover
      cases h.advance (l.consult (f s) a).2 with
      | finished hl hc hw h' =>
          rw [if_pos hc] at hover
          cases hover
          exact ⟨⟨_, hw⟩, hears⟩
      | further hl hc h' =>
          rw [hc, if_neg Bool.false_ne_true, Option.map_eq_some_iff] at hover
          obtain ⟨⟨s'', zs⟩, hover, heq⟩ := hover
          cases heq
          obtain ⟨hw, hz⟩ := ih h' (flushing_step hl h') hsteps hover
          rw [settings_step, List.append_assoc] at hw
          exact ⟨hw, hears.trans hz⟩
      | aside hl' => simp [hl] at hl'

/-- A flush that has to wait for room leaves none of the assigned partitions paused, whoever paused it before; another
one leaves all pauses as they are. So the pauses are the same behind a flush exactly if it did not wait or none of the
assigned partitions was paused. -/
theorem same_paused_iff {r : Resume} (hp : l.phase = .flushing r .offering) (hq : l.paused = none)
    {steps : List ((Connection → Connection) × Answer)} (hd : ∀ x ∈ steps, Connection.Discreet x.1)
    (hover : l.flushOver s steps = some (s', xs)) :
    (waits xs = false → s'.member.paused = s.member.paused) ∧
      (waits xs = true → s'.member.paused = s.member.paused.filter (fun n => n ∉ s.assignment.map Partition.number)) ∧
      ((∀ n, n ∈ s'.member.paused ↔ n ∈ s.member.paused) ↔
        waits xs = false ∨ ∀ n ∈ s.member.paused, n ∉ s.assignment.map Partition.number) := by
  have hbegin : Underway l [] := .offering hp (by rw [hq]; exact .nothing)
  obtain ⟨⟨b, hw⟩, hs⟩ := flushOver_spec hbegin (flushing_of_phase hp) hd hover
  have hpaused := hs.paused
  rw [List.nil_append] at hw
  rw [holds_eq hw hs.assigned] at hpaused
  have hstays (h : waits xs = false) : s'.member.paused = s.member.paused := by simpa [h] using hpaused
  have hgoes (h : waits xs = true) :
      s'.member.paused = s.member.paused.filter (fun n => n ∉ s.assignment.map Partition.number) := by
    by_cases hps : s.assignment = []
    · rw [hpaused, if_neg (by simp [hps])]
      exact (List.filter_eq_self.mpr (by simp [hps])).symm
    · rw [hpaused, if_pos ⟨h, hps⟩, foldl_spell]
  refine ⟨hstays, hgoes, ?_⟩
  cases h : waits xs with
  | false => simp [hstays h]
  | true =>
      rw [hgoes h]
      simp only [List.mem_filter, decide_eq_true_eq, Bool.true_eq_false, false_or]
      exact ⟨fun hsame n hn => ((hsame n).mpr hn).2, fun hnone n => ⟨And.left, fun hn => ⟨hn, hnone n hn⟩⟩⟩

def reader (paused : List Int) : Connection :=
  ⟨.make "events" 1, { group := "workers", trouble := { polls := 1 }, paused := paused }⟩

def atFlush : Ingestion :=
  { settings := .forTopic "events", flush := { batch := [⟨⟨"events", 0⟩, 0, 0, none, none, {}⟩] },
    phase := .flushing .nextInterval .offering }

def roomAtSecond : List ((Connection → Connection) × Answer) :=
  [(id, .offered .full), (id, .looked 1 false), (id, .passed), (id, .passed), (id, .passed),
    (fun s => s.store ⟨⟨"events", 0⟩, 1⟩, .passed), (id, .offered .accepted), (id, .passed)]

theorem discreet_roomAtSecond : ∀ x ∈ roomAtSecond, Connection.Discreet x.1 := by
  have hid : Connection.Discreet id := Connection.Hears.refl
  have hstore : Connection.Discreet (fun s => s.store ⟨⟨"events", 0⟩, 1⟩) := fun s => ⟨rfl, .nil _, rfl⟩
  simp [roomAtSecond, hid, hstore]

theorem same_paused_iff_unassigned : ∃ s' xs, atFlush.flushOver (reader [7]) roomAtSecond = some (s', xs) ∧
    waits xs = true ∧ ∀ n, n ∈ s'.member.paused ↔ n ∈ (reader [7]).member.paused := by
  have hwaits : (atFlush.flushOver (reader [7]) roomAtSecond).map (fun x => waits x.2) = some true := by decide
  obtain ⟨⟨s', xs⟩, hover, hx⟩ := Option.map_eq_some_iff.mp hwaits
  have hunassigned : ∀ n ∈ (reader [7]).member.paused, n ∉ (reader [7]).assignment.map Partition.number := by decide
  exact ⟨s', xs, hover, hx, (same_paused_iff rfl rfl discreet_roomAtSecond hover).2.2.mpr (.inr hunassigned)⟩

/-- A partition that others have paused is resumed by a flush that waits for room. -/
theorem wait_resumes_foreign : ¬ ∀ (l : Ingestion) (r : Resume) (s s' : Connection)
    (steps : List ((Connection → Connection) × Answer)) (xs : List Exchange), l.phase = .flushing r .offering →
    l.paused = none → s.member.closed = false → (∀ x ∈ steps, Connection.Discreet x.1) →
    l.flushOver s steps = some (s', xs) → ∀ n, n ∈ s'.member.paused ↔ n ∈ s.member.paused := by
  intro h
  have hresumed : (atFlush.flushOver (reader [0]) roomAtSecond).map (fun x => x.1.member.paused) = some [] := by decide
  obtain ⟨⟨s', xs⟩, hover, hx⟩ := Option.map_eq_some_iff.mp hresumed
  have hsame := h atFlush .nextInterval (reader [0]) s' roomAtSecond xs rfl rfl rfl discreet_roomAtSecond hover 0
  rw [show s'.member.paused = [] from hx] at hsame
  exact absurd (hsame.mpr (by decide)) List.not_mem_nil

end Ingestion

end StreamTrigger
