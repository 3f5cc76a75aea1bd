import StreamTrigger.Configuration
import StreamTrigger.Listener.Lifecycle
import Mathlib.Tactic.SplitIfs

namespace StreamTrigger

section Results

variable {ε α β : Type} {x : Except ε α} {y : β}

theorem bind_ok {f : α → Except ε β} (h : x >>= f = .ok y) : ∃ a, x = .ok a ∧ f a = .ok y := by
  cases x with
  | error e => cases h
  | ok a => exact ⟨a, rfl, h⟩

theorem map_ok {f : α → β} (h : x.map f = .ok y) : ∃ a, x = .ok a ∧ f a = y := by
  cases x with
  | error e => cases h
  | ok a => exact ⟨a, rfl, Except.ok.inj h⟩

/-- The result is as `P` says, if there is one. -/
def Yields (x : Except ε α) (P : α → Prop) : Prop := ∀ a, x = .ok a → P a

namespace Yields

variable {P : β → Prop}

theorem pure (h : P y) : Yields (Pure.pure y : Except ε β) P := by
  rintro _ ⟨⟩
  exact h

theorem bind {f : α → Except ε β} (h : ∀ a, x = .ok a → Yields (f a) P) : Yields (x >>= f) P := by
  intro b hb
  obtain ⟨a, ha, hf⟩ := bind_ok hb
  exact h a ha b hf

end Yields

end Results

namespace Text

theorem digits_le {limit : Nat} {excess : NumeralError} {cs : List Char} {n m : Nat}
    (h : digits limit excess cs n = .ok m) (hn : n ≤ limit) : m ≤ limit := by
  induction cs generalizing n with
  | nil => cases h; exact hn
  | cons c cs ih =>
      simp only [digits] at h
      split at h
      · split at h
        · exact ih h ‹_›
        · cases h
      · cases h

theorem readNumeral_le {least : Int} {greatest : Nat} {s : String} {x : Int}
    (h : readNumeral least greatest s = .ok x) : x ≤ greatest := by
  -- an unsigned numeral is read as a natural number first
  have hpositive {cs : List Char} (h : (digits (greatest : Int).toNat .tooLarge cs 0 >>= fun n => pure (n : Int)) = .ok x) :
      x ≤ greatest := by
    obtain ⟨n, hn, hx⟩ := bind_ok h
    cases hx
    exact Int.ofNat_le.mpr (digits_le hn (Nat.zero_le _))
  unfold readNumeral at h
  split at h
  case h_4 | h_6 =>
    obtain ⟨n, hn, rfl⟩ := map_ok h
    exact hpositive hn
  case h_5 =>
    split at h
    · obtain ⟨n, hn, rfl⟩ := map_ok h
      obtain ⟨m, -, hm⟩ := bind_ok hn
      cases hm
      omega
    · cases h
  all_goals cases h

end Text

theorem Environment.natural_le {env : Environment} {name : String} {default greatest n : Nat}
    (h : env.natural name default greatest = .ok n) (hd : default ≤ greatest) : n ≤ greatest := by
  obtain ⟨x, hx, rfl⟩ := map_ok h
  rw [integer] at hx
  cases hv : env.values.get? name with
  | none =>
      rw [hv] at hx
      cases hx
      exact hd
  | some s =>
      rw [hv] at hx
      cases hr : Text.readNumeral 0 greatest s with
      | error e => simp [hr, Except.mapError] at hx
      | ok n =>
          obtain rfl : n = x := by simpa [hr, Except.mapError] using hx
          exact Int.toNat_le.mpr (Text.readNumeral_le hr)

namespace Configuration

/-- The two sizes come from their variables, and nothing else has a say in them. -/
theorem sizes_of_read (env : Environment) : Yields (read env) (fun c =>
    env.natural "MAX_BATCH_SIZE" 64 greatest64 = .ok c.maxBatch ∧
      env.natural "CHANNEL_CAPACITY" 10 greatest64 = .ok c.capacity) := by
  unfold read
  repeat refine .bind (fun _ _ => ?_)
  exact .pure ⟨by assumption, by assumption⟩

theorem validate_ok_iff (c : Configuration) :
    c.validate = .ok () ↔ 0 < c.maxBatch ∧ 0 < c.capacity ∧ 0 < c.intervalSeconds ∧ 0 < c.lagThreshold ∧
      (∃ m, c.commit = .ok m) ∧ ∃ m, c.dispatch = .ok m := by
  have hmodes : (do let _ ← c.commit; let _ ← c.dispatch; return () : Except ConfigurationError Unit) = .ok () ↔
      (∃ m, c.commit = .ok m) ∧ ∃ m, c.dispatch = .ok m := by
    cases c.commit <;> cases c.dispatch <;> simp [bind, Except.bind, pure, Except.pure]
  rw [validate]
  split_ifs with hbatch hcapacity hinterval hthreshold
  · simp [hbatch]
  · simp [hcapacity]
  · simp [hinterval]
  · simpa using fun _ _ _ hpos => absurd hpos (by omega)
  · rw [hmodes]
    have hpos : 0 < c.maxBatch ∧ 0 < c.capacity ∧ 0 < c.intervalSeconds ∧ 0 < c.lagThreshold := by omega
    simp [hpos]

theorem listenerSettings_of_validate {c : Configuration} (h : c.validate = .ok ()) :
    ∃ s, c.listenerSettings = .ok s ∧ s.topic = c.topic ∧ s.maxBatch = c.maxBatch ∧ s.capacity = c.capacity := by
  obtain ⟨-, -, -, -, ⟨commit, hcommit⟩, dispatch, hdispatch⟩ := c.validate_ok_iff.mp h
  rw [listenerSettings, hcommit, hdispatch]
  exact ⟨_, rfl, rfl, rfl, rfl⟩

end Configuration

theorem Fault.ofThreadName?_eq_some {name : String} {f : Fault} (h : ofThreadName? name = some f) :
    f = .zeroInName name.toUTF8.toList := by
  simp only [ofThreadName?] at h
  split at h
  · exact (Option.some.inj h).symm
  · cases h

/-- What is made when a listener starts is made in order, and the first fault is the answer. -/
theorem Listener.start_new {s : ListenerSettings} (hs : 0 < s.capacity) :
    let l : Listener := { settings := s }
    (l.start = .error (.faulted .tooManyPermits) ↔ BatchQueue.permits < s.capacity) ∧
    (l.start = .error (.faulted .allocationTooLarge) ↔
      s.capacity ≤ BatchQueue.permits ∧ Word.greatest < (s.maxBatch * Record.footprint : Nat)) ∧
    ((∃ x, l.start = .ok x) ↔
      s.capacity ≤ BatchQueue.permits ∧ (s.maxBatch * Record.footprint : Nat) ≤ Word.greatest ∧
        Fault.ofThreadName? ("ingest-" ++ s.topic) = none) := by
  simp only [Listener.start, Listener.threadName, Bool.false_eq_true, if_false, BatchQueue.make, Accumulator.make,
    if_neg (Nat.ne_of_gt hs)]
  generalize s.maxBatch * Record.footprint = room
  by_cases hcapacity : BatchQueue.permits < s.capacity
  · simp [hcapacity, Nat.not_le.mpr hcapacity]
  have hcapacity' : s.capacity ≤ BatchQueue.permits := Nat.not_lt.mp hcapacity
  rw [if_neg hcapacity]
  by_cases hroom : Word.greatest < room
  · simp [hroom, hcapacity', Int.not_le.mpr hroom]
  have hroom' : room ≤ Word.greatest := Int.not_lt.mp hroom
  rw [if_neg hroom]
  cases hf : Fault.ofThreadName? ("ingest-" ++ s.topic) with
  | none => simp [hcapacity', hroom']
  | some f =>
      obtain rfl := Fault.ofThreadName?_eq_some hf
      simp [hcapacity', hroom']

namespace Configuration

/-- A configuration that passes the check makes settings, with sizes anywhere between one and the greatest number that can
be read. The queue has no place for all of these capacities, nor memory for all of these batches, and then the listener
faults as it starts. -/
theorem validated_starts_iff (env : Environment) (c : Configuration) (hread : read env = .ok c)
    (hvalid : c.validate = .ok ()) :
    ∃ s, c.listenerSettings = .ok s ∧ s.topic = c.topic ∧
      env.natural "CHANNEL_CAPACITY" 10 greatest64 = .ok s.capacity ∧
      env.natural "MAX_BATCH_SIZE" 64 greatest64 = .ok s.maxBatch ∧
      (0 < s.capacity ∧ s.capacity ≤ greatest64) ∧ (0 < s.maxBatch ∧ s.maxBatch ≤ greatest64) ∧
      let l : Listener := { settings := s }
      (l.start = .error (.faulted .tooManyPermits) ↔ BatchQueue.permits < s.capacity) ∧
      (l.start = .error (.faulted .allocationTooLarge) ↔
        s.capacity ≤ BatchQueue.permits ∧ Word.greatest < (s.maxBatch * Record.footprint : Nat)) ∧
      ((∃ x, l.start = .ok x) ↔
        s.capacity ≤ BatchQueue.permits ∧ (s.maxBatch * Record.footprint : Nat) ≤ Word.greatest ∧
          Fault.ofThreadName? ("ingest-" ++ s.topic) = none) := by
  obtain ⟨s, hs, htopic, hmaxBatch, hcapacity⟩ := listenerSettings_of_validate hvalid
  obtain ⟨hbatchRead, hcapacityRead⟩ := sizes_of_read env c hread
  obtain ⟨hbatch, hroom, -⟩ := c.validate_ok_iff.mp hvalid
  rw [← hmaxBatch] at hbatchRead hbatch
  rw [← hcapacity] at hcapacityRead hroom
  exact ⟨s, hs, htopic, hcapacityRead, hbatchRead, ⟨hroom, Environment.natural_le hcapacityRead (by decide)⟩,
    ⟨hbatch, Environment.natural_le hbatchRead (by decide)⟩, Listener.start_new hroom⟩

def setting (name value : String) : Environment := ⟨.ofList [(name, value)]⟩

theorem validated_starts_with_all_permits :
    ∃ c s x, read (setting "CHANNEL_CAPACITY" "2305843009213693951") = .ok c ∧ c.validate = .ok () ∧
      c.listenerSettings = .ok s ∧ ({ settings := s } : Listener).start = .ok x := by
  obtain ⟨c, hread, hvalid, htopic⟩ : ∃ c, read (setting "CHANNEL_CAPACITY" "2305843009213693951") = .ok c ∧
      c.validate = .ok () ∧ c.topic = "events" := ⟨_, rfl, rfl, rfl⟩
  obtain ⟨s, hs, hsame, hcapacity, hbatch, -, -, -, -, hstart⟩ := validated_starts_iff _ c hread hvalid
  have hfull : 2305843009213693951 = s.capacity := Except.ok.inj hcapacity
  have hdefault : 64 = s.maxBatch := Except.ok.inj hbatch
  rw [hsame, htopic, ← hfull, ← hdefault] at hstart
  obtain ⟨x, hx⟩ := hstart.mpr (by decide +kernel)
  exact ⟨c, s, x, hread, hvalid, hs, hx⟩

/-- One place more than a queue can have. -/
theorem crowded_queue_faults : ¬ ∀ (env : Environment) (c : Configuration), read env = .ok c → c.validate = .ok () →
    ∃ s x, c.listenerSettings = .ok s ∧ ({ settings := s } : Listener).start = .ok x := by
  intro h
  obtain ⟨c, hread, hvalid, hcapacity⟩ : ∃ c, read (setting "CHANNEL_CAPACITY" "2305843009213693952") = .ok c ∧
      c.validate = .ok () ∧ c.capacity = 2305843009213693952 := ⟨_, rfl, rfl, rfl⟩
  obtain ⟨s, x, hs, hx⟩ := h _ c hread hvalid
  obtain ⟨s', hs', -, -, hsame⟩ := listenerSettings_of_validate hvalid
  obtain rfl : s = s' := Except.ok.inj (hs.symm.trans hs')
  rw [hcapacity] at hsame
  have hfault := (Listener.start_new (by omega)).1.mpr (hsame ▸ by decide : BatchQueue.permits < s.capacity)
  rw [hx] at hfault
  cases hfault

end Configuration

end StreamTrigger
