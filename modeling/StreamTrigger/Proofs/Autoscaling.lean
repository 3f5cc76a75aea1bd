import StreamTrigger.Proofs.Refusals
import StreamTrigger.Rehearsal.Script

namespace StreamTrigger

def LagProvider.Grounded (p : LagProvider) : Prop := ∀ x, p.last = some x → x.Grounded

structure Measured.Grounded {β : Type} (x : Measured β) : Prop where
  provider : x.provider.Grounded
  sample : ∀ s, x.sample = .ok s → s.Grounded

namespace LagProvider

variable {β : Type} {p : LagProvider}

theorem keep_grounded (p : LagProvider) (b : β) {s : LagSample} (hs : s.Grounded) (notices : List ScaleTask) :
    (p.keep b s notices).Grounded where
  provider x hx := by
    obtain rfl : s = x := Option.some.inj hx
    exact hs
  sample x hx := by
    obtain rfl : s = x := Except.ok.inj hx
    exact hs

variable [Broker β]

theorem partitions_last (p : LagProvider) (b : β) (now : Nat) : (p.partitions b now).1.last = p.last := by
  rw [partitions]
  split
  · rfl
  · split <;> rfl

theorem measure_grounded (hp : p.Grounded) (b : β) (now : Moment) : (p.measure b now).Grounded := by
  have hlast := p.partitions_last b now.instant
  rw [measure]
  generalize p.partitions b now.instant = x at hlast ⊢
  obtain ⟨p', b', r⟩ := x
  have hp' : p'.Grounded := fun s hs => hp s (hlast.symm.trans hs)
  cases r with
  | failed e => exact p'.keep_grounded b' (by simp [LagSample.Grounded]) _
  | broken f => exact ⟨hp', fun _ h => by cases h⟩
  | ok qs =>
      cases qs with
      | nil => exact p'.keep_grounded b' (by simp [LagSample.Grounded]) _
      | cons q qs =>
          have hcount : (1 : Int) ≤ (min (q :: qs).length greatestCount : Nat) := by
            rw [List.length_cons, greatestCount]
            omega
          dsimp only
          generalize p'.allLags b' (q :: qs) = y
          obtain ⟨b'', r⟩ := y
          cases r with
          | ok lags => exact p'.keep_grounded b'' (fun _ => hcount) _
          | failed e => exact p'.keep_grounded b'' (fun _ => hcount) _
          | broken f => exact ⟨hp', fun _ h => by cases h⟩

end LagProvider

theorem TargetScaler.sample_grounded {β : Type} [Broker β] (s : TargetScaler) {p : LagProvider} (hp : p.Grounded)
    (b : β) (asked : Instant) (taken : Moment) : (s.sample p b asked taken).Grounded := by
  rw [sample]
  split
  · next x hx =>
      split
      · exact ⟨hp, fun y hy => by obtain rfl : x = y := Except.ok.inj hy; exact hp x hx⟩
      · exact LagProvider.measure_grounded hp b taken
  · exact LagProvider.measure_grounded hp b taken

namespace Instant

theorem ofNanos_isLeap (n : Int) : (ofNanos n).isLeap = false := by
  have hpos : (0 : Int) < Span.second := by decide
  have hlt := Int.fmod_lt_of_pos n hpos
  have hnonneg := Int.fmod_nonneg_of_pos n hpos
  have hnano : (n.fmod Span.second).toNat < Span.second := by omega
  exact decide_eq_false (Nat.not_le.mpr hnano)

theorem since_eq {now before : Instant} (hn : now.isLeap = false) (hb : before.isLeap = false) :
    now.since before = now.nanos - before.nanos := by
  simp [since, leapsSince, hn, hb]

end Instant

inductive Autoscaler.Entry where
  | evaluated (t : Turn)
  | removed (k : ScalerKey)

def Autoscaler.Entry.onto (k : ScalerKey) (h : Turns) : Autoscaler.Entry → Turns
  | evaluated t => if t.appraisal.scaler.key = k then h ++ [t] else h
  | removed j => if j = k then [] else h

/-- The providers, and the calls that have read the clock and a sample and are not yet done. -/
structure Autoscaler (β : Type) where
  providers : List LagProvider
  broker : β
  registry : Registry := {}
  calls : List Appraisal := []
  log : List Autoscaler.Entry := []

namespace Autoscaler

variable {β : Type}

/-- The clock of a call shows nanoseconds since the start of 1970. The broker may change at any time. -/
inductive Move (β : Type) where
  | measure (provider : Nat) (taken : Moment)
  | invalidate (provider : Nat)
  | read (provider : Nat) (scaler : TargetScaler) (wanted : Option Nat) (clock : Int) (taken : Moment)
  | update (call : Nat)
  | remove (k : ScalerKey)
  | elsewhere (f : β → β)

def state (s : Autoscaler β) (k : ScalerKey) : ScalerState := (s.registry.state? k).getD {}

/-- The turns of a key since it was last removed. -/
def life (s : Autoscaler β) (k : ScalerKey) : Turns := s.log.foldl (Entry.onto k) []

def turn (s : Autoscaler β) (a : Appraisal) : Turn :=
  ⟨a, (s.registry.evaluate a.scaler a.wanted a.sample a.now).2.result⟩

def store (s : Autoscaler β) (i : Nat) (x : Measured β) : Autoscaler β :=
  { s with providers := s.providers.set i x.provider, broker := x.broker }

/-- A call whose sample breaks never comes to the registry. -/
def join (s : Autoscaler β) (scaler : TargetScaler) (wanted : Option Nat) (now : Instant) :
    Except Fault LagSample → Autoscaler β
  | .ok sample => { s with calls := s.calls ++ [⟨scaler, wanted, sample, now⟩] }
  | .error _ => s

def update (s : Autoscaler β) (a : Appraisal) : Autoscaler β :=
  { s with
    registry := (s.registry.evaluate a.scaler a.wanted a.sample a.now).1
    log := s.log ++ [.evaluated (s.turn a)] }

def remove (s : Autoscaler β) (k : ScalerKey) : Autoscaler β :=
  { s with registry := (s.registry.remove k).1, log := s.log ++ [.removed k] }

variable [Broker β]

def move (s : Autoscaler β) : Move β → Autoscaler β
  | .measure i taken =>
      match s.providers[i]? with
      | none => s
      | some p => s.store i (p.measure s.broker taken)
  | .invalidate i =>
      match s.providers[i]? with
      | none => s
      | some p => { s with providers := s.providers.set i p.invalidate }
  | .read i scaler wanted clock taken =>
      match s.providers[i]? with
      | none => s
      | some p =>
          let x := scaler.sample p s.broker (.ofNanos clock) taken
          (s.store i x).join scaler wanted (.ofNanos clock) x.sample
  | .update i =>
      match s.calls[i]? with
      | none => s
      | some a => { s.update a with calls := s.calls.eraseIdx i }
  | .remove k => s.remove k
  | .elsewhere f => { s with broker := f s.broker }

def run (s : Autoscaler β) (ms : List (Move β)) : Autoscaler β := ms.foldl move s

def opened (ps : List LagProvider) (b : β) : Autoscaler β := ⟨ps, b, {}, [], []⟩

section Updates

omit [Broker β]

variable (s : Autoscaler β) (a : Appraisal) (j k : ScalerKey)

theorem state_update :
    (s.update a).state k = if a.scaler.key = k then (a.on (s.state a.scaler.key)).state else s.state k :=
  Registry.standing_evaluate k

theorem life_update : (s.update a).life k = if a.scaler.key = k then s.life k ++ [s.turn a] else s.life k := by
  simp only [life, update, List.foldl_append, List.foldl_cons, List.foldl_nil]
  rfl

theorem state_remove : (s.remove j).state k = if j = k then {} else s.state k := by
  simp only [state, remove, Registry.remove, Registry.state?, Table.get?_erase]
  split <;> rfl

theorem life_remove : (s.remove j).life k = if j = k then [] else s.life k := by
  simp only [life, remove, List.foldl_append, List.foldl_cons, List.foldl_nil]
  rfl

end Updates

structure Kept (s : Autoscaler β) : Prop where
  providers : ∀ p ∈ s.providers, p.Grounded
  calls : ∀ a ∈ s.calls, a.sample.Grounded ∧ a.now.isLeap = false
  recalls : ∀ k, Recalls (s.state k) (s.life k)
  ticks : ∀ k, ∀ t ∈ (s.life k).rises, t.isLeap = false

variable {s : Autoscaler β}

omit [Broker β] in
theorem kept_opened {ps : List LagProvider} (hps : ∀ p ∈ ps, p.last = none) (b : β) : (opened ps b).Kept where
  providers p hp x hx := by rw [hps p hp] at hx; cases hx
  calls := by simp [opened]
  recalls _ := recalls_nothing
  ticks := by simp [opened, life]

namespace Kept

omit [Broker β]

theorem store (hs : s.Kept) (i : Nat) {x : Measured β} (hx : x.Grounded) : (s.store i x).Kept where
  providers p hp := by
    rcases List.mem_or_eq_of_mem_set hp with hp | rfl
    · exact hs.providers p hp
    · exact hx.provider
  calls := hs.calls
  recalls := hs.recalls
  ticks := hs.ticks

theorem join (hs : s.Kept) (scaler : TargetScaler) (wanted : Option Nat) {now : Instant} (hnow : now.isLeap = false)
    {r : Except Fault LagSample} (hr : ∀ x, r = .ok x → x.Grounded) : (s.join scaler wanted now r).Kept := by
  cases r with
  | error f => exact hs
  | ok x =>
      refine { hs with calls := fun a ha => ?_ }
      rcases List.mem_append.mp ha with ha | ha
      · exact hs.calls a ha
      · obtain rfl := List.mem_singleton.mp ha
        exact ⟨hr x rfl, hnow⟩

theorem update (hs : s.Kept) {a : Appraisal} (ha : a.sample.Grounded ∧ a.now.isLeap = false) : (s.update a).Kept where
  providers := hs.providers
  calls := hs.calls
  recalls k := by
    rw [state_update, life_update]
    split
    · next hk =>
        subst hk
        exact (hs.recalls _).on ha.1
    · exact hs.recalls k
  ticks k t ht := by
    rw [life_update] at ht
    split at ht
    · rw [Turns.rises_concat] at ht
      rcases List.mem_append.mp ht with ht | ht
      · exact hs.ticks k t ht
      · split at ht
        · obtain rfl := List.mem_singleton.mp ht
          exact ha.2
        · cases ht
    · exact hs.ticks k t ht

theorem remove (hs : s.Kept) (j : ScalerKey) : (s.remove j).Kept where
  providers := hs.providers
  calls := hs.calls
  recalls k := by
    rw [state_remove, life_remove]
    split
    · exact recalls_nothing
    · exact hs.recalls k
  ticks k t ht := by
    rw [life_remove] at ht
    split at ht
    · cases ht
    · exact hs.ticks k t ht

end Kept

theorem Kept.move (hs : s.Kept) (m : Move β) : (s.move m).Kept := by
  cases m with
  | measure i taken =>
      rw [Autoscaler.move]
      split
      · exact hs
      · next p hp => exact hs.store i (LagProvider.measure_grounded (hs.providers p (List.mem_of_getElem? hp)) _ _)
  | invalidate i =>
      rw [Autoscaler.move]
      split
      · exact hs
      · next p hp =>
          refine { hs with providers := fun q hq => ?_ }
          rcases List.mem_or_eq_of_mem_set hq with hq | rfl
          · exact hs.providers q hq
          · exact hs.providers p (List.mem_of_getElem? hp)
  | read i scaler wanted clock taken =>
      rw [Autoscaler.move]
      split
      · exact hs
      · next p hp =>
          have hx := scaler.sample_grounded (hs.providers p (List.mem_of_getElem? hp)) s.broker (.ofNanos clock) taken
          exact (hs.store i hx).join scaler wanted (Instant.ofNanos_isLeap clock) hx.sample
  | update i =>
      rw [Autoscaler.move]
      split
      · exact hs
      · next a ha =>
          exact { hs.update (hs.calls a (List.mem_of_getElem? ha)) with
            calls := fun c hc => hs.calls c (List.mem_of_mem_eraseIdx hc) }
  | remove k => exact hs.remove k
  | elsewhere f => exact { hs with }

theorem Kept.run (hs : s.Kept) (ms : List (Move β)) : (s.run ms).Kept := by
  induction ms generalizing s with
  | nil => exact hs
  | cons m ms ih => exact ih (hs.move m)

/-- Whatever the broker does, a key is given one worker at least, and no more than the most partitions that any of its
samples had since it was last removed, the present sample among them. -/
theorem workers_within_partitions {ps : List LagProvider} (hps : ∀ p ∈ ps, p.last = none) {b : β} {ms : List (Move β)}
    (hrun : (opened ps b).run ms = s) {a : Appraisal} (ha : a ∈ s.calls) {n : Nat}
    (hn : (s.registry.evaluate a.scaler a.wanted a.sample a.now).2.result = .ok n) :
    1 ≤ n ∧ (n : Int) ≤ max 1 (s.life a.scaler.key ++ [s.turn a]).breadth := by
  have hs : s.Kept := hrun ▸ (kept_opened hps b).run ms
  have hr := (hs.update (hs.calls a ha)).recalls a.scaler.key
  rw [life_update, if_pos rfl] at hr
  have hlast : (s.life a.scaler.key ++ [s.turn a]).last? = some n := by
    rw [Turns.last_concat, Turn.after, turn, hn]
  exact ⟨hr.least n hlast, hr.most n hlast⟩

def busyKey : ScalerKey := ⟨"ev", "g", "f"⟩

def busy : Autoscaler ScriptedBroker :=
  opened [.make "ev" "g" 1000000000 180000000000]
    { answers :=
        { partitions := .listed [0, 1, 2, 3, 4, 5, 6, 7]
          queried := some [(⟨"ev", 0⟩, some (.ofOffsets 0 70))] } }

def ask (wanted : Nat) (second : Nat) : Move ScriptedBroker :=
  .read 0 { key := busyKey, threshold := 10 } (some wanted) (second * 1000000000) ⟨⟨second, 0⟩, second * 1000000000⟩

theorem busy_new : ∀ p ∈ busy.providers, p.last = none := by simp [busy, opened, LagProvider.make]

theorem workers_within_partitions_busy :
    ∃ a ∈ (busy.run [ask 3 0]).calls,
      ((busy.run [ask 3 0]).registry.evaluate a.scaler a.wanted a.sample a.now).2.result = .ok 8 ∧
      (8 : Int) ≤ max 1 ((busy.run [ask 3 0]).life a.scaler.key ++ [(busy.run [ask 3 0]).turn a]).breadth :=
  ⟨_, List.mem_singleton_self _, rfl,
    (workers_within_partitions busy_new (rfl : _ = busy.run [ask 3 0]) (List.mem_singleton_self _) rfl).2⟩

end Autoscaler

end StreamTrigger
