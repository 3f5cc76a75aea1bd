import StreamTrigger.Proofs.Delivery
import StreamTrigger.Rehearsal.Pipe

namespace StreamTrigger

theorem Accumulator.make_ok {sizeHint : Nat} {a : Accumulator} (h : make sizeHint = .ok a) : a = {} := by
  rw [make] at h
  split at h
  · simp at h
  · cases h
    rfl

namespace BatchQueue

theorem make_ok {capacity : Nat} {q : BatchQueue} (h : make capacity = .ok q) :
    q = { capacity := capacity, fits := Nat.zero_le _ } := by
  rw [make] at h
  split at h
  · simp at h
  · split at h
    · simp at h
    · cases h
      rfl

end BatchQueue

namespace Pipe

theorem make_ok {capacity sizeHint : Nat} {p : Pipe} (h : make capacity sizeHint = .ok p) :
    p = { queue := { capacity := capacity, fits := Nat.zero_le _ } } := by
  rw [make] at h
  cases hq : BatchQueue.make capacity with
  | error f => simp [hq, bind, Except.bind] at h
  | ok q =>
      cases ha : Accumulator.make sizeHint with
      | error f => simp [hq, ha, bind, Except.bind] at h
      | ok a =>
          have hp : { queue := q, accumulator := a } = p := by
            simpa [hq, ha, bind, Except.bind, pure, Except.pure] using h
          rw [← hp, BatchQueue.make_ok hq, Accumulator.make_ok ha]

theorem tryTake_cases (p : Pipe) :
    (∃ t, p.tryTake = (p, t) ∧ t.join = none) ∨ ∃ b q, p.queue.items = b :: q.items ∧ q.capacity = p.queue.capacity ∧
      p.tryTake = ({ p with queue := q }, some (some b)) := by
  rw [tryTake]
  split
  · rcases p.queue.tryTake_cases with ⟨-, h⟩ | ⟨b, q, hitems, hcapacity, -, -, h⟩ <;> rw [h]
    · exact .inl ⟨_, rfl, rfl⟩
    · exact .inr ⟨b, q, hitems, hcapacity, rfl⟩
  · exact .inl ⟨_, rfl, rfl⟩

theorem take_cases (p : Pipe) :
    (∃ t, p.take = (p, t) ∧ ∀ b, t ≠ some (.batch b)) ∨ ∃ b q, p.queue.items = b :: q.items ∧ q.capacity = p.queue.capacity ∧
      p.take = ({ p with queue := q }, some (.batch b)) := by
  rw [take]
  split
  · rcases p.queue.take_cases with ⟨-, h⟩ | ⟨b, q, hitems, hcapacity, -, -, h⟩ <;> rw [h]
    · exact .inl ⟨_, rfl, fun b => by split <;> simp⟩
    · exact .inr ⟨b, q, hitems, hcapacity, rfl⟩
  · exact .inl ⟨_, rfl, by simp⟩

theorem offerUntil_full (p : Pipe) {f : Flush} (ho : p.queue.offer f.batch = (p.queue, .full)) (ha : p.aborted = false)
    (acts : List PipeAct) (waits : Nat) :
    p.offerUntil f acts (waits + 1) =
      let r := (p.act (acts.head?.getD .abort)).1.offerUntil { f with announced := true } acts.tail waits
      { r with
        taken := (p.act (acts.head?.getD .abort)).2 :: r.taken
        reports := (if f.announced then [] else [.queueFull f.size p.queue.capacity]) ++ r.reports } := by
  have hlook : f.looked p.queue.capacity p.aborted =
      .wait { f with announced := true } (if f.announced then [] else [.queueFull f.size p.queue.capacity]) := by
    simp [Flush.looked, ha]
  rw [offerUntil, ho]
  simp only [Flush.offered, hlook]

end Pipe

namespace FlushOutcome

def records : FlushOutcome → Nat
  | empty => 0
  | enqueued n | aborted n | closed n => n

def delivered : FlushOutcome → Bool
  | enqueued _ => true
  | _ => false

/-- What a flush must have found to come to an outcome. -/
def Due (p : Pipe) : FlushOutcome → Prop
  | empty => p.accumulator.pending = []
  | enqueued _ => p.queue.closed = false ∧ p.queue.items.length < p.queue.capacity
  | aborted _ => p.aborted
  | closed _ => p.queue.closed

end FlushOutcome

inductive FlushStage where
  | idle
  | offering (f : Flush)
  | looking (f : Flush)
  | waiting (f : Flush)

def FlushStage.flush? : FlushStage → Option Flush
  | idle => none
  | offering f | looking f | waiting f => some f

/-- The `gathered` records are those that were pending when the last flush began. Each flush that is over stands with
the records that were pending when it began, and with its outcome. -/
structure Handoff where
  pipe : Pipe
  stage : FlushStage := .idle
  gathered : Batch := []
  added : List Record := []
  received : List Batch := []
  flushes : List (Batch × FlushOutcome) := []

namespace Handoff

inductive Move where
  | add (r : Record)
  | begin
  | attempt
  | look
  | resume
  | abort
  | tryTake
  | take
  | close

def flight (s : Handoff) : Batch := (s.stage.flush?.map Flush.batch).getD []

def enqueued (s : Handoff) : List Batch := (s.flushes.filter (fun e => e.2.delivered)).map Prod.fst

def conclude (s : Handoff) (o : FlushOutcome) : Handoff :=
  { s with stage := .idle, flushes := s.flushes ++ [(s.gathered, o)] }

def follow (s : Handoff) (f : Flush) : FlushMove → Handoff
  | .look => { s with stage := .looking f }
  | .wait f _ => { s with stage := .waiting f }
  | .done o _ => s.conclude o

def begin (s : Handoff) : Handoff :=
  let s := { s with gathered := s.pipe.accumulator.pending }
  match s.pipe.accumulator.flush? with
  | none => s.conclude .empty
  | some f => { s with pipe := { s.pipe with accumulator := {} }, stage := .offering f }

def attempt (s : Handoff) (f : Flush) : Handoff :=
  let (queue, o) := s.pipe.queue.offer f.batch
  { s with pipe := { s.pipe with queue := queue } }.follow f (f.offered o)

/-- One thread adds and flushes, so nothing is added while a flush is in progress. -/
def move (s : Handoff) : Move → Handoff
  | .add r =>
      match s.stage with
      | .idle => { s with pipe := s.pipe.add r, added := s.added ++ [r] }
      | _ => s
  | .begin =>
      match s.stage with
      | .idle => s.begin
      | _ => s
  | .attempt =>
      match s.stage with
      | .offering f => s.attempt f
      | _ => s
  | .look =>
      match s.stage with
      | .looking f => s.follow f (f.looked s.pipe.queue.capacity s.pipe.aborted)
      | _ => s
  | .resume =>
      match s.stage with
      | .waiting f => { s with stage := .offering f }
      | _ => s
  | .abort => { s with pipe := s.pipe.abort }
  | .tryTake =>
      match s.pipe.tryTake with
      | (p, some (some b)) => { s with pipe := p, received := s.received ++ [b] }
      | (p, _) => { s with pipe := p }
  | .take =>
      match s.pipe.take with
      | (p, some (.batch b)) => { s with pipe := p, received := s.received ++ [b] }
      | (p, _) => { s with pipe := p }
  | .close => { s with pipe := s.pipe.close }

def run (s : Handoff) (ms : List Move) : Handoff := ms.foldl move s

inductive Effect (s s' : Handoff) : Prop
  | aside (hpending : s'.pipe.accumulator = s.pipe.accumulator) (hitems : s'.pipe.queue.items = s.pipe.queue.items)
      (hcapacity : s'.pipe.queue.capacity = s.pipe.queue.capacity)
      (hbatch : s'.stage.flush?.map Flush.batch = s.stage.flush?.map Flush.batch) (hgathered : s'.gathered = s.gathered)
      (hadded : s'.added = s.added) (hreceived : s'.received = s.received) (hflushes : s'.flushes = s.flushes)
  | adds (r : Record) (hidle : s.stage = .idle) (hs : s' = { s with pipe := s.pipe.add r, added := s.added ++ [r] })
  | begins (hidle : s.stage = .idle) (hne : s.pipe.accumulator.pending ≠ [])
      (hs : s' = { s with
        pipe := { s.pipe with accumulator := {} }
        stage := .offering { batch := s.pipe.accumulator.pending }
        gathered := s.pipe.accumulator.pending })
  | finds (hidle : s.stage = .idle) (hnil : s.pipe.accumulator.pending = [])
      (hs : s' = { s with gathered := [] }.conclude .empty)
  | enters (f : Flush) (hf : s.stage.flush? = some f) (hdue : FlushOutcome.Due s.pipe (.enqueued f.size)) (q : BatchQueue)
      (hcapacity : q.capacity = s.pipe.queue.capacity) (hitems : q.items = s.pipe.queue.items ++ [f.batch])
      (hs : s' = { s with pipe := { s.pipe with queue := q } }.conclude (.enqueued f.size))
  | givesUp (f : Flush) (hf : s.stage.flush? = some f) (o : FlushOutcome) (hdue : o.Due s.pipe)
      (ho : o = .aborted f.size ∨ o = .closed f.size) (hs : s' = s.conclude o)
  | receives (b : Batch) (q : BatchQueue) (hcapacity : q.capacity = s.pipe.queue.capacity)
      (hitems : s.pipe.queue.items = b :: q.items)
      (hs : s' = { s with pipe := { s.pipe with queue := q }, received := s.received ++ [b] })

variable {s s' : Handoff}

theorem effect_of_queue (s : Handoff) {p : Pipe} (ha : p.accumulator = s.pipe.accumulator)
    (hi : p.queue.items = s.pipe.queue.items) (hc : p.queue.capacity = s.pipe.queue.capacity) : Effect s { s with pipe := p } :=
  .aside ha hi hc rfl rfl rfl rfl rfl

theorem effect_of_stage (stage : FlushStage) (h : stage.flush?.map Flush.batch = s.stage.flush?.map Flush.batch) :
    Effect s { s with stage := stage } :=
  .aside rfl rfl rfl h rfl rfl rfl rfl

theorem begin_effect (h : s.stage = .idle) : Effect s s.begin := by
  rw [begin, Accumulator.flush?]
  cases hp : s.pipe.accumulator.pending with
  | nil => exact .finds h hp (by simp)
  | cons r rs => exact .begins h (by simp [hp]) (by simp [hp])

theorem attempt_effect {f : Flush} (h : s.stage = .offering f) : Effect s (s.attempt f) := by
  have hf : s.stage.flush? = some f := by rw [h]; rfl
  rw [attempt]
  rcases s.pipe.queue.offer_cases f.batch with ⟨hopen, hfits, ho⟩ | ho | ⟨hclosed, ho⟩ <;> rw [ho]
  · have hroom : s.pipe.queue.items.length < s.pipe.queue.capacity := Nat.lt_of_lt_of_le (by simp) hfits
    exact .enters f hf ⟨hopen, hroom⟩ { s.pipe.queue with items := s.pipe.queue.items ++ [f.batch], fits := hfits } rfl rfl rfl
  · exact effect_of_stage (.looking f) (by rw [hf]; rfl)
  · exact .givesUp f hf (.closed f.size) hclosed (.inr rfl) rfl

theorem look_effect {f : Flush} (h : s.stage = .looking f) :
    Effect s (s.follow f (f.looked s.pipe.queue.capacity s.pipe.aborted)) := by
  have hf : s.stage.flush? = some f := by rw [h]; rfl
  rw [Flush.looked]
  split
  · next ha => exact .givesUp f hf (.aborted f.size) ha (.inl rfl) rfl
  · exact effect_of_stage (.waiting { f with announced := true }) (by rw [hf]; rfl)

theorem move_effect (s : Handoff) (m : Move) : Effect s (s.move m) := by
  have hself : Effect s s := effect_of_queue s rfl rfl rfl
  cases m with
  | add r =>
      cases h : s.stage with
      | idle => exact .adds r h (by simp [move, h])
      | _ => simpa [move, h] using hself
  | begin =>
      cases h : s.stage with
      | idle => simpa [move, h] using begin_effect h
      | _ => simpa [move, h] using hself
  | attempt =>
      cases h : s.stage with
      | offering f => simpa [move, h] using attempt_effect h
      | _ => simpa [move, h] using hself
  | look =>
      cases h : s.stage with
      | looking f => simpa [move, h] using look_effect h
      | _ => simpa [move, h] using hself
  | resume =>
      cases h : s.stage with
      | waiting f => simpa [move, h] using effect_of_stage (s := s) (.offering f) (by rw [h]; rfl)
      | _ => simpa [move, h] using hself
  | abort => exact effect_of_queue s rfl rfl rfl
  | tryTake =>
      rcases s.pipe.tryTake_cases with ⟨t, ht, hnone⟩ | ⟨b, q, hitems, hcapacity, ht⟩
      · rcases t with _ | _ | b
        · simpa [move, ht] using hself
        · simpa [move, ht] using hself
        · simp at hnone
      · exact .receives b q hcapacity hitems (by rw [move, ht])
  | take =>
      rcases s.pipe.take_cases with ⟨t, ht, hnone⟩ | ⟨b, q, hitems, hcapacity, ht⟩
      · rcases t with _ | b | _ | _
        · simpa [move, ht] using hself
        · exact absurd rfl (hnone b)
        · simpa [move, ht] using hself
        · simpa [move, ht] using hself
      · exact .receives b q hcapacity hitems (by rw [move, ht])
  | close =>
      rw [move, Pipe.close]
      split
      · exact effect_of_queue s rfl rfl rfl
      · exact hself

/-- The records between the two ends, and what the flushes told of them. -/
structure Conserved (capacity : Nat) (s : Handoff) : Prop where
  added : s.added = s.flushes.flatMap Prod.fst ++ s.flight ++ s.pipe.accumulator.pending
  received : s.received ++ s.pipe.queue.items = s.enqueued
  capacity : s.pipe.queue.capacity = capacity
  nonempty : [] ∉ s.pipe.queue.items
  told : ∀ e ∈ s.flushes, e.2.records = e.1.length
  underway : ∀ f, s.stage.flush? = some f → f.batch = s.gathered ∧ f.batch ≠ []

theorem flight_idle (h : s.stage = .idle) : s.flight = [] := by simp [flight, h, FlushStage.flush?]

theorem flight_of_flush {f : Flush} (h : s.stage.flush? = some f) : s.flight = f.batch := by simp [flight, h]

theorem flight_conclude (s : Handoff) (o : FlushOutcome) : (s.conclude o).flight = [] := flight_idle rfl

theorem enqueued_conclude (s : Handoff) (o : FlushOutcome) :
    (s.conclude o).enqueued = s.enqueued ++ if o.delivered then [s.gathered] else [] := by
  cases h : o.delivered <;> simp [conclude, enqueued, h]

variable {capacity : Nat}

theorem conserved_start {sizeHint : Nat} {p : Pipe} (hp : Pipe.make capacity sizeHint = .ok p) :
    Conserved capacity { pipe := p } := by
  obtain rfl := Pipe.make_ok hp
  exact ⟨rfl, rfl, rfl, by simp, by simp, by simp [FlushStage.flush?]⟩

theorem Conserved.conclude (h : Conserved capacity s) {f : Flush} (hf : s.stage.flush? = some f) {o : FlushOutcome}
    (ho : o.records = f.size) {q : BatchQueue} (hcapacity : q.capacity = s.pipe.queue.capacity)
    (hitems : q.items = s.pipe.queue.items ++ if o.delivered then [f.batch] else []) :
    Conserved capacity ({ s with pipe := { s.pipe with queue := q } }.conclude o) := by
  obtain ⟨hgathered, hne⟩ := h.underway f hf
  refine ⟨?added, ?received, hcapacity.trans h.capacity, ?nonempty, ?told, by simp [Handoff.conclude, FlushStage.flush?]⟩
  case added =>
    have hadded := h.added
    rw [flight_of_flush hf, hgathered] at hadded
    rw [flight_conclude]
    simpa [Handoff.conclude] using hadded
  case received =>
    rw [enqueued_conclude, ← hgathered]
    exact (congrArg (s.received ++ ·) hitems).trans (by rw [← List.append_assoc, h.received]; rfl)
  case nonempty =>
    have := h.nonempty
    simp only [Handoff.conclude, hitems, List.mem_append, not_or]
    refine ⟨this, ?_⟩
    split <;> simp [hne.symm]
  case told =>
    intro e he
    rcases List.mem_append.mp he with he | he
    · exact h.told e he
    · obtain rfl := List.mem_singleton.mp he
      rw [ho, ← hgathered, Flush.size]

theorem Conserved.effect (h : Conserved capacity s) (he : Effect s s') : Conserved capacity s' := by
  cases he with
  | aside hpending hitems hcapacity hbatch hgathered hadded hreceived hflushes =>
      refine ⟨?added, ?received, hcapacity.trans h.capacity, hitems ▸ h.nonempty, hflushes ▸ h.told, fun f hf => ?underway⟩
      case added => simpa [hadded, hflushes, flight, hbatch, hpending] using h.added
      case received => simpa [hreceived, hitems, enqueued, hflushes] using h.received
      case underway =>
        rw [hf] at hbatch
        obtain ⟨f', hf', he⟩ : ∃ f', s.stage.flush? = some f' ∧ f'.batch = f.batch := by simpa using hbatch.symm
        simpa [hgathered, ← he] using h.underway f' hf'
  | adds r hidle hs =>
      subst hs
      refine ⟨?_, h.received, h.capacity, h.nonempty, h.told, h.underway⟩
      have hadded := h.added
      rw [flight_idle hidle] at hadded
      simp [hadded, flight_idle, hidle, Pipe.add, Accumulator.add]
  | begins hidle hne hs =>
      subst hs
      refine ⟨?_, h.received, h.capacity, h.nonempty, h.told, by simp [FlushStage.flush?, hne]⟩
      have hadded := h.added
      rw [flight_idle hidle] at hadded
      simpa [flight, FlushStage.flush?] using hadded
  | finds hidle hnil hs =>
      subst hs
      refine ⟨?_, ?_, h.capacity, h.nonempty, ?_, by simp [Handoff.conclude, FlushStage.flush?]⟩
      · have hadded := h.added
        rw [flight_idle hidle] at hadded
        rw [flight_conclude]
        simpa [Handoff.conclude] using hadded
      · rw [enqueued_conclude]
        simpa [Handoff.conclude, FlushOutcome.delivered, enqueued] using h.received
      · simpa [Handoff.conclude, FlushOutcome.records, or_imp, forall_and] using h.told
  | enters f hf hdue q hcapacity hitems hs =>
      exact hs ▸ h.conclude hf rfl hcapacity (by simpa [FlushOutcome.delivered] using hitems)
  | givesUp f hf o hdue ho hs =>
      have hrecords : o.records = f.size ∧ o.delivered = false := by rcases ho with rfl | rfl <;> exact ⟨rfl, rfl⟩
      exact hs ▸ h.conclude hf hrecords.1 rfl (by simp [hrecords.2])
  | receives b q hcapacity hitems hs =>
      subst hs
      refine ⟨h.added, ?_, hcapacity.trans h.capacity, fun hm => h.nonempty (by simp [hitems, hm]), h.told, h.underway⟩
      have hreceived := h.received
      rw [hitems] at hreceived
      simpa [enqueued] using hreceived

theorem Conserved.run (h : Conserved capacity s) (ms : List Move) : Conserved capacity (s.run ms) := by
  induction ms generalizing s with
  | nil => exact h
  | cons m ms ih => exact ih (h.effect (s.move_effect m))

theorem flush_ends (s : Handoff) (m : Move) :
    ((s.move m).flushes = s.flushes ∧ (s.flight ≠ [] → (s.move m).flight = s.flight)) ∨
      ∃ o, (s.move m).flushes = s.flushes ++ [((s.move m).gathered, o)] ∧ o.Due s.pipe := by
  cases s.move_effect m with
  | aside _ _ _ hbatch _ _ _ hflushes => exact .inl ⟨hflushes, fun _ => by simp [flight, hbatch]⟩
  | adds r hidle hs => exact .inl (by simp [hs, flight])
  | begins hidle _ hs => exact .inl (by simp [hs, flight_idle hidle])
  | finds hidle hnil hs => exact .inr ⟨.empty, by simp [hs, conclude], hnil⟩
  | enters f hf hdue q _ _ hs => exact .inr ⟨_, by simp [hs, conclude], hdue⟩
  | givesUp f hf o hdue ho hs => exact .inr ⟨o, by simp [hs, conclude], hdue⟩
  | receives b q _ _ hs => exact .inl (by simp [hs, flight])

section Flush

theorem run_append (s : Handoff) (ms ns : List Move) : s.run (ms ++ ns) = (s.run ms).run ns := List.foldl_append ..

def acted : PipeAct → List Move
  | .take => [.tryTake]
  | .close => [.close]
  | .abort => [.abort]
  | .nothing | .discard => []

theorem run_acted (s : Handoff) {a : PipeAct} (ha : a ≠ .discard) :
    s.run (acted a) = { s with pipe := (s.pipe.act a).1, received := s.received ++ (s.pipe.act a).2.toList } := by
  cases a with
  | discard => exact absurd rfl ha
  | nothing | close | abort => simp [acted, run, move, Pipe.act]
  | take =>
      rcases s.pipe.tryTake_cases with ⟨t, ht, hnone⟩ | ⟨b, q, -, -, ht⟩
      · rcases t with _ | _ | b
        · simp [acted, run, move, Pipe.act, ht]
        · simp [acted, run, move, Pipe.act, ht]
        · simp at hnone
      · simp [acted, run, move, Pipe.act, ht]

def settle (s : Handoff) (r : Flushed) : Handoff :=
  { s with pipe := r.pipe, received := s.received ++ r.taken.filterMap id }.conclude r.outcome

theorem offerUntil_at_once {f : Flush} (hs : s.stage = .offering f) (acts : List PipeAct) (waits : Nat)
    (h : s.pipe.aborted ∨ (s.pipe.queue.offer f.batch).2 ≠ .full) :
    ∃ ms, s.run ms = s.settle (s.pipe.offerUntil f acts waits) := by
  unfold Pipe.offerUntil
  rcases s.pipe.queue.offer_cases f.batch with ⟨-, hfits, ho⟩ | ho | ⟨-, ho⟩
  · exact ⟨[.attempt], by simp [run, move, hs, attempt, ho, Flush.offered, follow, settle, conclude]⟩
  · have ha : s.pipe.aborted := h.resolve_right (by simp [ho])
    exact ⟨[.attempt, .look], by
      simp [run, move, hs, attempt, ho, Flush.offered, Flush.looked, follow, settle, conclude, ha]⟩
  · exact ⟨[.attempt], by simp [run, move, hs, attempt, ho, Flush.offered, follow, settle, conclude]⟩

theorem round_run {f : Flush} (hs : s.stage = .offering f) (ha : s.pipe.aborted = false)
    (ho : s.pipe.queue.offer f.batch = (s.pipe.queue, .full)) {a : PipeAct} (hd : a ≠ .discard) :
    s.run ([.attempt, .look] ++ acted a ++ [.resume]) = { s with
      pipe := (s.pipe.act a).1
      stage := .offering { f with announced := true }
      received := s.received ++ (s.pipe.act a).2.toList } := by
  have hwaits : s.run [.attempt, .look] = { s with stage := .waiting { f with announced := true } } := by
    have hattempt : s.move .attempt = { s with stage := .looking f } := by simp [move, hs, attempt, ho, Flush.offered, follow]
    rw [show s.run [.attempt, .look] = (s.move .attempt).move .look from rfl, hattempt]
    simp [move, Flush.looked, follow, ha]
  rw [run_append, run_append, hwaits, run_acted _ hd]
  simp [run, move]

/-- A flush that goes on until it is over is a run of attempts and waits. Behind the last act of the other end an abort is
requested, so the waits are enough. -/
theorem offerUntil_run {f : Flush} (hs : s.stage = .offering f) {acts : List PipeAct} (hacts : .discard ∉ acts) {waits : Nat}
    (hw : s.pipe.aborted ∨ acts.length < waits) : ∃ ms, s.run ms = s.settle (s.pipe.offerUntil f acts waits) := by
  induction waits generalizing s f acts with
  | zero => exact offerUntil_at_once hs acts 0 (.inl (hw.resolve_right (Nat.not_lt_zero _)))
  | succ waits ih =>
      by_cases hover : s.pipe.aborted ∨ (s.pipe.queue.offer f.batch).2 ≠ .full
      · exact offerUntil_at_once hs acts _ hover
      · obtain ⟨ha, ho⟩ : s.pipe.aborted = false ∧ s.pipe.queue.offer f.batch = (s.pipe.queue, .full) := by
          rcases s.pipe.queue.offer_cases f.batch with ⟨-, hfits, ho⟩ | ho | ⟨-, ho⟩ <;> simp_all
        obtain ⟨a, hhead⟩ : ∃ a, acts.head?.getD .abort = a := ⟨_, rfl⟩
        have hd : a ≠ .discard := by
          rintro rfl
          cases acts <;> simp_all
        have hround := round_run hs ha ho hd
        have hleft : (s.pipe.act a).1.aborted ∨ acts.tail.length < waits := by
          cases acts with
          | nil =>
              obtain rfl : .abort = a := hhead
              exact .inl rfl
          | cons b bs => exact .inr (by simpa [ha] using hw)
        generalize ht : s.run ([.attempt, .look] ++ acted a ++ [.resume]) = t at hround
        obtain ⟨ms, hms⟩ := ih (s := t) (f := { f with announced := true }) (by rw [hround])
          (fun hm => hacts (List.mem_of_mem_tail hm)) (by rwa [hround])
        refine ⟨[.attempt, .look] ++ acted a ++ [.resume] ++ ms, ?_⟩
        rw [run_append, ht, hms, hround, s.pipe.offerUntil_full ho ha, hhead]
        cases (s.pipe.act a).2 <;> simp [settle, conclude]

theorem flush_run (hs : s.stage = .idle) {acts : List PipeAct} (hacts : .discard ∉ acts) :
    ∃ ms, s.run ms = { s with gathered := s.pipe.accumulator.pending }.settle (s.pipe.flush acts) := by
  rw [Pipe.flush]
  cases hf : s.pipe.accumulator.flush? with
  | none => exact ⟨[.begin], by simp [run, move, hs, begin, hf, settle]⟩
  | some f =>
      have hbegin : s.move .begin = { s with
          pipe := { s.pipe with accumulator := {} }, stage := .offering f, gathered := s.pipe.accumulator.pending } := by
        simp [move, hs, begin, hf]
      have hstage : (s.move .begin).stage = .offering f := by rw [hbegin]
      obtain ⟨ms, hms⟩ := offerUntil_run hstage hacts (.inr (show acts.length < acts.length + 2 by omega))
      refine ⟨.begin :: ms, ?_⟩
      rw [show s.run (.begin :: ms) = (s.move .begin).run ms from rfl, hms, hbegin]
      simp [settle, conclude]

end Flush

/-- Batches are received in the order in which they were enqueued, and flushes end only for a reason. -/
theorem conserves_records {sizeHint : Nat} {p : Pipe} (hp : Pipe.make capacity sizeHint = .ok p) (ms : List Move)
    {s : Handoff} (hs : ({ pipe := p } : Handoff).run ms = s) :
    s.added = s.flushes.flatMap Prod.fst ++ s.flight ++ s.pipe.accumulator.pending ∧
      s.received ++ s.pipe.queue.items = s.enqueued ∧
      s.pipe.queue.items.length ≤ capacity ∧ [] ∉ s.pipe.queue.items ∧
      (∀ e ∈ s.flushes, e.2.records = e.1.length) ∧
      ∀ m, ((s.move m).flushes = s.flushes ∧ (s.flight ≠ [] → (s.move m).flight = s.flight)) ∨
        ∃ o, (s.move m).flushes = s.flushes ++ [((s.move m).gathered, o)] ∧ o.Due s.pipe := by
  have hconserved : Conserved capacity s := hs ▸ (conserved_start hp).run ms
  have hfits := s.pipe.queue.fits
  rw [hconserved.capacity] at hfits
  exact ⟨hconserved.added, hconserved.received, hfits, hconserved.nonempty, hconserved.told, s.flush_ends⟩

def addedRecord (n : Nat) (offset : Int) : Record := { partition := ⟨"events", n⟩, offset := offset }

/-- The second flush waits until the first batch is taken, the third is given up. -/
def threeFlushes : List Move :=
  [.add (addedRecord 0 0), .begin, .attempt, .add (addedRecord 0 1), .add (addedRecord 1 0), .begin, .attempt, .look,
    .tryTake, .resume, .attempt, .add (addedRecord 1 1), .begin, .attempt, .abort, .look]

theorem conserves_records_aborted : ∃ p s, Pipe.make 1 0 = .ok p ∧ ({ pipe := p } : Handoff).run threeFlushes = s ∧
    s.added = s.flushes.flatMap Prod.fst ++ s.flight ++ s.pipe.accumulator.pending ∧
    s.received ++ s.pipe.queue.items = s.enqueued ∧ s.pipe.queue.items.length ≤ 1 ∧
    s.flushes.map Prod.snd = [.enqueued 1, .enqueued 2, .aborted 1] ∧ s.received = [[addedRecord 0 0]] := by
  have hmake : Pipe.make 1 0 = .ok { queue := { capacity := 1 } } := rfl
  obtain ⟨hadded, hreceived, hfits, -⟩ := conserves_records hmake threeFlushes rfl
  exact ⟨_, _, rfl, rfl, hadded, hreceived, hfits, by decide +kernel, by decide +kernel⟩

end Handoff

end StreamTrigger
