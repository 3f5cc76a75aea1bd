import StreamTrigger.Listener.Ingestion
import StreamTrigger.Proofs.Trace

namespace StreamTrigger

open Trace

def FlushPhase.settled : FlushPhase → Bool
  | .resuming _ _ => true
  | _ => false

namespace Ingestion

/-- What is seen of the records when the loop hears an answer. An answer to another question does not count. -/
def marks (l : Ingestion) (a : Answer) : List Mark :=
  match l.asks, a with
  | some (.poll _), .polled (.ok (some (.record r))) => [.polled r]
  | some (.offer b), .offered .accepted => [.queued b]
  | some (.offer b), .offered .closed => [.dropped b]
  | some .aborted, .looked _ true => [.dropped l.flush.batch]
  | _, _ => []

/-- The records in the hands of the loop, in the order of the polls. While a flush resumes the assignment, its batch
has already left. -/
def load (l : Ingestion) : List Record :=
  match l.phase with
  | .flushing _ (.resuming _ _) => l.pending.pending ++ l.held
  | .flushing _ _ => l.flush.batch ++ l.pending.pending ++ l.held
  | _ => l.pending.pending

theorem foldl_add (rs : List Record) (a : Accumulator) : rs.foldl Accumulator.add a = ⟨a.pending ++ rs⟩ := by
  induction rs generalizing a with
  | nil => simp
  | cons r rs ih => simp [ih, Accumulator.add]

/-- The last flush is under way, the one behind the request to stop or behind a flush that gave up. -/
def closing (l : Ingestion) : Bool :=
  match l.phase with
  | .flushing .close _ => true
  | _ => false

def spare (l : Ingestion) : List Record :=
  match l.phase with
  | .flushing .close _ => l.pending.pending ++ l.held
  | .releasing | .signalling | .ended => l.pending.pending
  | _ => []

/-- The records that an answer brings to the last flush. -/
def late (l : Ingestion) (a : Answer) : List Record := if l.closing then polled (l.marks a) else []

def flushing (l : Ingestion) : Bool :=
  match l.phase with
  | .flushing _ _ => true
  | _ => false

def stopped (l : Ingestion) : Bool :=
  match l.phase with
  | .releasing | .signalling | .ended => true
  | _ => false

structure Within (l : Ingestion) (r : Resume) (p : FlushPhase) (a : Answer) (l' : Ingestion) : Prop where
  phase : ∃ p', l'.phase = .flushing r p' ∧ p'.settled = p.settled
  batch : l'.flush.batch = l.flush.batch
  pending : l'.pending = l.pending
  held : l'.held = l.held ++ polled (l.marks a)
  settings : l'.settings = l.settings
  errors : l'.errors = l.errors
  sent : sent (l.marks a) = []

structure Between (l : Ingestion) (a : Answer) (l' : Ingestion) : Prop where
  flushing : l'.flushing = false
  stopped : l'.stopped = l.stopped
  pending : l'.pending = l.pending
  settings : l'.settings = l.settings
  errors : l'.errors = l.errors
  marks : l.marks a = []

/-- All that a step can be. The loop goes on between flushes or within one, begins one, ends one with its batch, or goes
on behind one that has resumed what it paused. -/
inductive Step (l : Ingestion) (a : Answer) (l' : Ingestion) : Prop where
  | between (hl : l.flushing = false) (h : Between l a l')
  | polls {start wait : Nat} {reply : Except BrokerError (Option PollEvent)} (hp : l.phase = .polling start wait)
      (ha : a = .polled reply) (h' : l' = (l.stepPolled start reply).1)
  | begins {r : Resume} (hl : l.flushing = false) (hn : l.stopped = false) (hm : l.marks a = []) (h' : l' = l.beginFlush r)
  | within {r : Resume} {p : FlushPhase} (hp : l.phase = .flushing r p) (h : Within l r p a l')
  | leaves {r : Resume} {p : FlushPhase} {o : FlushOutcome} (hp : l.phase = .flushing r p) (hn : p.settled = false)
      (hm : polled (l.marks a) = [] ∧ sent (l.marks a) = [l.flush.batch]) (h' : l' = (l.endFlush r o).1)
  | resumed {r : Resume} {ps : List Partition} {o : FlushOutcome} (hp : l.phase = .flushing r (.resuming ps o))
      (hm : l.marks a = []) (h' : l' = (l.concludeFlush r o).1)

theorem stepFlush_spec {l : Ingestion} {r : Resume} {p : FlushPhase} (h : l.phase = .flushing r p) (a : Answer) :
    Step l a (l.stepFlush r p a).1 := by
  cases p with
  | offering =>
      cases a with
      | offered o =>
          cases o with
          | accepted | closed => exact .leaves h rfl (by simp [marks, asks, h, polled, sent]) rfl
          | full =>
              refine .within h ?_
              constructor <;> simp [stepFlush, Flush.offered, move, goTo, marks, asks, h, polled, sent, FlushPhase.settled]
      | _ =>
          refine .within h ?_
          constructor <;> simp [stepFlush, marks, asks, h, polled, sent]
  | looking =>
      cases a with
      | looked capacity aborted =>
          cases aborted with
          | true => exact .leaves h rfl (by simp [marks, asks, h, polled, sent]) rfl
          | false =>
              refine .within h ?_
              constructor <;> cases hq : l.paused <;>
                simp [stepFlush, Flush.looked, move, hq, marks, asks, h, polled, sent, FlushPhase.settled]
      | _ =>
          refine .within h ?_
          constructor <;> simp [stepFlush, marks, asks, h, polled, sent]
  | assigning =>
      refine .within h ?_
      rcases a with _ | _ | _ | _ | _ | (_ | _ | _) | _ | _ <;> constructor <;>
        simp [stepFlush, goTo, marks, asks, h, polled, sent, FlushPhase.settled]
  | pausing ps =>
      refine .within h ?_
      rcases a with _ | _ | _ | _ | _ | _ | (_ | _) | _ <;> constructor <;>
        simp [stepFlush, marks, asks, h, polled, sent, FlushPhase.settled]
  | polling =>
      refine .within h ?_
      rcases a with _ | _ | (_ | _ | (_ | _)) | _ | _ | _ | _ | _ <;> constructor <;>
        simp [stepFlush, goTo, marks, asks, h, polled, sent, FlushPhase.settled]
  | resting =>
      refine .within h ?_
      cases a <;> constructor <;> simp [stepFlush, goTo, marks, asks, h, polled, sent, FlushPhase.settled]
  | resuming ps o =>
      cases a with
      | told reply => exact .resumed h (by simp [marks, asks, h]) rfl
      | _ =>
          refine .within h ?_
          constructor <;> simp [stepFlush, marks, asks, h, polled, sent, FlushPhase.settled]

theorem step_spec (l : Ingestion) (a : Answer) : Step l a (l.step a).1 := by
  cases h : l.phase with
  | flushing r p => simpa only [step, h] using stepFlush_spec h a
  | polling start wait =>
      cases a with
      | polled reply => exact .polls h rfl (by simp only [step, h])
      | _ =>
          refine .between (by simp [flushing, h]) ?_
          constructor <;> simp [step, flushing, marks, asks, h]
  | opening | checking start =>
      cases a with
      | flag stop =>
          cases stop with
          | true =>
              exact .begins (by simp [flushing, h]) (by simp [stopped, h]) (by simp [marks, asks, h])
                (by simp only [step, h, if_true]; rfl)
          | false =>
              refine .between (by simp [flushing, h]) ?_
              constructor <;> simp [step, goTo, flushing, stopped, marks, asks, h]
      | _ =>
          refine .between (by simp [flushing, h]) ?_
          constructor <;> simp [step, flushing, marks, asks, h]
  | timing start =>
      cases a with
      | time now =>
          by_cases hover : l.settings.interval ≤ now - start
          · exact .begins (by simp [flushing, h]) (by simp [stopped, h]) (by simp [marks, asks, h])
              (by simp only [step, h, hover, if_true]; rfl)
          · refine .between (by simp [flushing, h]) ?_
            constructor <;> simp [step, goTo, hover, flushing, stopped, marks, asks, h]
      | _ =>
          refine .between (by simp [flushing, h]) ?_
          constructor <;> simp [step, flushing, marks, asks, h]
  | dozing start deadline =>
      refine .between (by simp [flushing, h]) ?_
      cases a with
      | time now =>
          by_cases hover : deadline ≤ now <;> constructor <;>
            simp [step, goTo, hover, flushing, stopped, marks, asks, h]
      | _ => constructor <;> simp [step, flushing, marks, asks, h]
  | resting start deadline =>
      refine .between (by simp [flushing, h]) ?_
      cases a with
      | flag stop => cases stop <;> constructor <;> simp [step, goTo, flushing, stopped, marks, asks, h]
      | _ => constructor <;> simp [step, flushing, marks, asks, h]
  | marking | backingOff start | sleeping start deadline span | releasing | signalling | ended =>
      refine .between (by simp [flushing, h]) ?_
      cases a <;> constructor <;> simp [step, goTo, flushing, stopped, marks, asks, h]

theorem steady_resume (l : Ingestion) (delivered : Bool) (r : Resume) :
    (l.resume delivered r).settings = l.settings ∧ (l.resume delivered r).errors = l.errors := by
  by_cases h : l.pending.pending = [] <;> cases r <;> cases delivered <;> simp [resume, Accumulator.flush?, h, goTo]

theorem steady_beginFlush (l : Ingestion) (r : Resume) :
    (l.beginFlush r).settings = l.settings ∧ (l.beginFlush r).errors = l.errors := by
  rw [beginFlush]
  split
  · exact steady_resume l true r
  · exact ⟨rfl, rfl⟩

theorem steady_concludeFlush (l : Ingestion) (r : Resume) (o : FlushOutcome) :
    (l.concludeFlush r o).1.settings = l.settings ∧ (l.concludeFlush r o).1.errors = l.errors := by
  cases o <;> exact steady_resume _ _ r

theorem steady_endFlush (l : Ingestion) (r : Resume) (o : FlushOutcome) :
    (l.endFlush r o).1.settings = l.settings ∧ (l.endFlush r o).1.errors = l.errors := by
  rw [endFlush]
  split
  · exact ⟨rfl, rfl⟩
  · exact steady_concludeFlush l r o

theorem settings_stepPolled (l : Ingestion) (start : Nat) (reply : Except BrokerError (Option PollEvent)) :
    (l.stepPolled start reply).1.settings = l.settings := by
  unfold stepPolled
  split
  · dsimp only
    split
    · exact (steady_beginFlush _ _).1
    · rfl
  all_goals rfl

theorem settings_step (l : Ingestion) (a : Answer) : (l.step a).1.settings = l.settings := by
  cases l.step_spec a with
  | between hl h => exact h.settings
  | polls hp ha h' => exact h' ▸ settings_stepPolled ..
  | begins hl hn hm h' => exact h' ▸ (steady_beginFlush ..).1
  | within hp h => exact h.settings
  | leaves hp hn hm h' => exact h' ▸ (steady_endFlush ..).1
  | resumed hp hm h' => exact h' ▸ (steady_concludeFlush ..).1

section Kept

variable {l l' : Ingestion} {a : Answer} {r : Resume} {p : FlushPhase}

theorem load_between (hl : l.flushing = false) :
    l.load = l.pending.pending ∧ l.spare = if l.stopped then l.pending.pending else [] := by
  cases h : l.phase with
  | flushing r p => simp [flushing, h] at hl
  | _ => simp [load, spare, stopped, h]

theorem load_flushing (hp : l.phase = .flushing r p) :
    l.load = (if p.settled then [] else l.flush.batch) ++ (l.pending.pending ++ l.held) ∧
      l.spare = if r = .close then l.pending.pending ++ l.held else [] := by
  cases p <;> cases r <;> simp [load, spare, FlushPhase.settled, hp]

theorem closing_between (hl : l.flushing = false) : l.closing = false := by
  cases h : l.phase with
  | flushing r p => simp [flushing, h] at hl
  | _ => simp [closing, h]

/-- Going on behind a flush, the loop has in hand what is pending, and after the last flush it is to spare. -/
theorem load_resume (l : Ingestion) (delivered : Bool) (r : Resume) :
    (l.resume delivered r).load = l.pending.pending ∧
      (l.resume delivered r).spare = if r = .close then l.pending.pending else [] := by
  by_cases h : l.pending.pending = [] <;> cases r <;> cases delivered <;>
    simp [resume, Accumulator.flush?, h, load, spare, goTo]

theorem load_beginFlush (l : Ingestion) (r : Resume) :
    (l.beginFlush r).load = l.pending.pending ∧ (l.beginFlush r).spare = [] := by
  by_cases h : l.pending.pending = []
  · simp [beginFlush, Accumulator.flush?, h, load_resume]
  · cases r <;> simp [beginFlush, Accumulator.flush?, h, load, spare]

theorem load_concludeFlush (l : Ingestion) (r : Resume) (o : FlushOutcome) :
    (l.concludeFlush r o).1.load = l.pending.pending ++ l.held ∧
      (l.concludeFlush r o).1.spare = if r = .close then l.pending.pending ++ l.held else [] := by
  cases o <;> simp [concludeFlush, load_resume, foldl_add]

theorem load_endFlush (l : Ingestion) (r : Resume) (o : FlushOutcome) :
    (l.endFlush r o).1.load = l.pending.pending ++ l.held ∧
      (l.endFlush r o).1.spare = if r = .close then l.pending.pending ++ l.held else [] := by
  rw [endFlush]
  split
  · cases r <;> simp [load, spare, goTo]
  · exact load_concludeFlush l r o

structure Kept (l : Ingestion) (a : Answer) (l' : Ingestion) : Prop where
  load : l.load ++ polled (l.marks a) = (sent (l.marks a)).flatten ++ l'.load
  spare : l.spare ++ l.late a = l'.spare

theorem Kept.of_end {l l' : Ingestion} {a : Answer} {r : Resume} {p : FlushPhase} (h : l.phase = .flushing r p)
    (hp : polled (l.marks a) = [])
    (hl : l.load = (sent (l.marks a)).flatten ++ (l.pending.pending ++ l.held))
    (h' : l'.load = l.pending.pending ++ l.held ∧ l'.spare = if r = .close then l.pending.pending ++ l.held else []) :
    Kept l a l' := by
  obtain ⟨hload, hspare⟩ := h'
  constructor
  · rw [hp, hl, hload, List.append_nil]
  · rw [hspare]
    cases r <;> simp only [Ingestion.spare, h] <;> simp [late, hp]

theorem Kept.of_load {l l' : Ingestion} {a : Answer} (hn : l.closing = false) (hs : l.spare = []) (hs' : l'.spare = [])
    (h : l.load ++ polled (l.marks a) = (sent (l.marks a)).flatten ++ l'.load) : Kept l a l' :=
  ⟨h, by simp [late, hn, hs, hs']⟩

theorem kept_stepPolled (l : Ingestion) (start wait : Nat) (reply : Except BrokerError (Option PollEvent))
    (h : l.phase = .polling start wait) : Kept l (.polled reply) (l.stepPolled start reply).1 := by
  refine .of_load (by simp [closing, h]) (by simp [spare, h]) ?_ ?_
  · rcases reply with e | _ | r | p
    · rfl
    · rfl
    · simp only [stepPolled]
      split
      · exact (load_beginFlush _ _).2
      · rfl
    · rfl
  · rcases reply with e | _ | r | p
    · simp [stepPolled, marks, asks, h, load, polled, sent]
    · simp [stepPolled, goTo, marks, asks, h, load, polled, sent]
    · simp only [stepPolled]
      split
      · rw [(load_beginFlush _ _).1]
        simp [marks, asks, h, load, polled, sent, Accumulator.add]
      · simp [marks, asks, h, load, polled, sent, Accumulator.add, goTo]
    · simp [stepPolled, goTo, marks, asks, h, load, polled, sent]

theorem kept_beginFlush (l : Ingestion) (a : Answer) (r : Resume) (hl : l.load = l.pending.pending) (hs : l.spare = [])
    (hn : l.closing = false) (hm : l.marks a = []) : Kept l a (l.beginFlush r) := by
  refine .of_load hn hs (load_beginFlush l r).2 ?_
  rw [(load_beginFlush l r).1, hl, hm]
  simp [polled, sent]

theorem Between.kept (h : Between l a l') (hl : l.flushing = false) : Kept l a l' := by
  have hclosing := closing_between hl
  obtain ⟨hload, hspare⟩ := load_between hl
  obtain ⟨hload', hspare'⟩ := load_between h.flushing
  constructor
  · rw [hload, hload', h.pending, h.marks]
    simp [polled, sent]
  · rw [hspare, hspare', h.pending, h.stopped]
    simp [late, hclosing]

theorem Within.kept (h : Within l r p a l') (hp : l.phase = .flushing r p) : Kept l a l' := by
  obtain ⟨p', hp', hsettled⟩ := h.phase
  obtain ⟨hload, hspare⟩ := load_flushing hp
  obtain ⟨hload', hspare'⟩ := load_flushing hp'
  constructor
  · rw [hload, hload', hsettled, h.batch, h.pending, h.held, h.sent]
    simp
  · rw [hspare, hspare', h.pending, h.held]
    cases r <;> simp [late, closing, hp]

theorem kept_step (l : Ingestion) (a : Answer) : Kept l a (l.step a).1 := by
  cases l.step_spec a with
  | between hl h => exact h.kept hl
  | polls hp ha h' => exact h' ▸ ha ▸ kept_stepPolled l _ _ _ hp
  | begins hl hn hm h' =>
      obtain ⟨hload, hspare⟩ := load_between hl
      exact h' ▸ kept_beginFlush l a _ hload (by simp [hspare, hn]) (closing_between hl) hm
  | within hp h => exact h.kept hp
  | leaves hp hn hm h' =>
      obtain ⟨hpolled, hsent⟩ := hm
      exact h' ▸ .of_end hp hpolled (by simp [(load_flushing hp).1, hn, hsent]) (load_endFlush ..)
  | resumed hp hm h' =>
      have hload : l.load = l.pending.pending ++ l.held := by simp [(load_flushing hp).1, FlushPhase.settled]
      exact h' ▸ .of_end hp (by simp [hm, polled]) (by simp [hload, hm, sent]) (load_concludeFlush ..)

end Kept

def run (l : Ingestion) : List Answer → Ingestion × List Mark
  | [] => (l, [])
  | a :: as => (((l.step a).1.run as).1, l.marks a ++ ((l.step a).1.run as).2)

theorem settings_run (l : Ingestion) (as : List Answer) : (l.run as).1.settings = l.settings := by
  induction as generalizing l with
  | nil => rfl
  | cons a as ih => exact (ih _).trans (settings_step l a)

def allLate (l : Ingestion) : List Answer → List Record
  | [] => []
  | a :: as => l.late a ++ (l.step a).1.allLate as

theorem load_run (l : Ingestion) (as : List Answer) :
    l.load ++ polled (l.run as).2 = (sent (l.run as).2).flatten ++ (l.run as).1.load := by
  induction as generalizing l with
  | nil => simp [run, polled, sent]
  | cons a as ih =>
      simp only [run, polled_append, sent_append, List.flatten_append, List.append_assoc]
      rw [← List.append_assoc, (kept_step l a).load, List.append_assoc, ih]

theorem spare_run (l : Ingestion) (as : List Answer) : l.spare ++ l.allLate as = (l.run as).1.spare := by
  induction as generalizing l with
  | nil => simp [run, allLate]
  | cons a as ih =>
      simp only [run, allLate]
      rw [← List.append_assoc, (kept_step l a).spare, ih]

/-- Every record that was polled has left in a batch, in the order of the polls, but for those that came too late. -/
theorem polled_run (s : ListenerSettings) (as : List Answer) (h : ((start s).1.run as).1.phase = .ended) :
    polled ((start s).1.run as).2 = (sent ((start s).1.run as).2).flatten ++ (start s).1.allLate as := by
  have hl := load_run (start s).1 as
  have hs := spare_run (start s).1 as
  have he : ((start s).1.run as).1.load = ((start s).1.run as).1.spare := by simp [load, spare, h]
  rw [he, ← hs] at hl
  simpa [start, load, spare] using hl

end Ingestion

def Answer.breaksOff : Answer → Bool
  | .offered .closed => true
  | .looked _ aborted => aborted
  | _ => false

namespace Ingestion

theorem dropped_marks {a : Answer} (h : a.breaksOff = false) (l : Ingestion) : dropped (l.marks a) = [] := by
  unfold marks
  split <;> simp_all [dropped, Answer.breaksOff]

theorem dropped_run {as : List Answer} (h : ∀ a ∈ as, a.breaksOff = false) (l : Ingestion) :
    dropped (l.run as).2 = [] := by
  induction as generalizing l with
  | nil => rfl
  | cons a as ih =>
      rw [run, dropped_append, dropped_marks (h a List.mem_cons_self), List.nil_append]
      exact ih (fun b hb => h b (List.mem_cons_of_mem a hb)) (l.step a).1

/-- A loop that was left alone by aborts, over a queue that stayed open, has queued the records that it polled, each
once and in the order of the polls, up to those that arrived during its last flush. So it has queued them all
exactly when none arrived then. -/
theorem queued_all_iff_none_late (s : ListenerSettings) (as : List Answer) (hopen : ∀ a ∈ as, a.breaksOff = false)
    (hend : ((start s).1.run as).1.phase = .ended) :
    polled ((start s).1.run as).2 = (queued ((start s).1.run as).2).flatten ++ (start s).1.allLate as ∧
      ((queued ((start s).1.run as).2).flatten = polled ((start s).1.run as).2 ↔ (start s).1.allLate as = []) := by
  have h := polled_run s as hend
  rw [sent_eq_queued _ (dropped_run hopen _)] at h
  exact ⟨h, by rw [h]; simp⟩

def waitOnce (reply : Option PollEvent) : List Answer :=
  [.offered .full, .looked 1 false, .assigned (.ok []), .polled (.ok reply), .offered .accepted]

def stopAtFullQueue (first last : Option PollEvent) : List Answer :=
  [.flag false, .time 0, .flag false, .time 0, .polled (.ok (some (.record ⟨⟨"events", 0⟩, 0, 0, none, none, {}⟩))),
    .flag true] ++ waitOnce first ++ [.flag true] ++ waitOnce last ++ [.passed, .flag true]

theorem queued_all_iff_none_late_at_full_queue :
    let as := stopAtFullQueue (some (.record ⟨⟨"events", 0⟩, 1, 0, none, none, {}⟩)) none
    (∀ a ∈ as, a.breaksOff = false) ∧ ((start (.forTopic "events")).1.run as).1.phase = .ended ∧
      (queued ((start (.forTopic "events")).1.run as).2).flatten =
        polled ((start (.forTopic "events")).1.run as).2 := by
  intro as
  have hopen : ∀ a ∈ as, a.breaksOff = false := by decide
  have hend : ((start (.forTopic "events")).1.run as).1.phase = .ended := by decide
  exact ⟨hopen, hend, (queued_all_iff_none_late (.forTopic "events") as hopen hend).2.mpr (by decide)⟩

/-- A record that arrives while the last flush waits for room is lost, though nothing was aborted or closed. -/
theorem last_flush_loses : ¬ ∀ (s : ListenerSettings) (as : List Answer), (∀ a ∈ as, a.breaksOff = false) →
    ((start s).1.run as).1.phase = .ended →
    (queued ((start s).1.run as).2).flatten = polled ((start s).1.run as).2 := by
  intro h
  have hl := h (.forTopic "events")
    (stopAtFullQueue (some (.record ⟨⟨"events", 0⟩, 1, 0, none, none, {}⟩))
      (some (.record ⟨⟨"events", 0⟩, 2, 0, none, none, {}⟩))) (by decide) (by decide)
  revert hl
  decide

end Ingestion

end StreamTrigger
