import StreamTrigger.Proofs.WorkerCount
import StreamTrigger.Scaling.Registry
import Mathlib.Data.Option.Basic

namespace StreamTrigger

def LagSample.Grounded (x : LagSample) : Prop := 0 < x.lag → 1 ≤ x.partitions

instance (x : LagSample) : Decidable x.Grounded := inferInstanceAs (Decidable (_ → _))

/-- An evaluation as it is asked for, with the sample and the time that it goes by. -/
structure Appraisal where
  scaler : TargetScaler
  wanted : Option Nat
  sample : LagSample
  now : Instant

namespace Appraisal

def on (a : Appraisal) (st : ScalerState) : Evaluation := a.scaler.evaluate st a.wanted a.sample a.now

/-- The number of workers that the lag calls for, no more than there are partitions. Without lag there is none, nor with
a concurrency that is refused. -/
def called? (a : Appraisal) : Option Nat :=
  if a.sample.lag ≤ 0 then none
  else (a.scaler.concurrency a.wanted).toOption.map (fun c =>
    TargetScaler.cap (TargetScaler.shares a.sample.lag c) a.sample.partitions)

theorem called_eq (a : Appraisal) : a.called? =
    if a.sample.lag ≤ 0 ∨ a.scaler.share a.wanted < 1 then none else some (a.scaler.called a.wanted a.sample) := by
  by_cases hlag : a.sample.lag ≤ 0
  · rw [called?, if_pos hlag, if_pos (.inl hlag)]
  · by_cases hshare : a.scaler.share a.wanted < 1
    · rw [called?, if_neg hlag, TargetScaler.concurrency_eq, if_pos hshare, if_pos (.inr hshare)]
      rfl
    · rw [called?, if_neg hlag, TargetScaler.concurrency_eq, if_neg hshare, if_neg (not_or.mpr ⟨hlag, hshare⟩)]
      rfl

theorem called_spec {a : Appraisal} {n : Nat} (h : a.called? = some n) :
    0 < a.sample.lag ∧ (n : Int) ≤ max a.sample.partitions 0 ∧ (1 ≤ a.sample.partitions → 1 ≤ n) := by
  rw [called_eq] at h
  split at h
  · cases h
  · next hcalled =>
      obtain ⟨hlag, hshare⟩ := not_or.mp hcalled
      obtain rfl := Option.some.inj h
      refine ⟨by omega, TargetScaler.cap_le _ _, ?_⟩
      exact TargetScaler.one_le_cap (TargetScaler.one_le_shares (by omega) (by omega))

inductive Effect (a : Appraisal) (st : ScalerState) : ScalerState → Except ScalerError Nat → Prop
  | idles : a.sample.lag ≤ 0 → Effect a st { st with target := some 1 } (.ok 1)
  | refuses (e : ScalerError) : 0 < a.sample.lag → a.called? = none → Effect a st st (.error e)
  | rises (n : Nat) : a.called? = some n → (∀ last, st.target = some last → last < n) → (st.target = none → 0 < n) →
      Effect a st ⟨some n, some a.now⟩ (.ok n)
  | lacks : a.called? = some 0 → st.target = none → Effect a st { st with target := some 0 } (.ok 0)
  | holds (last n : Nat) (t : Instant) : a.called? = some n → st.target = some last → n ≤ last → st.scaledUp = some t →
      a.now.since t < a.scaler.throttle → Effect a st st (.ok last)
  | yields (last n : Nat) : a.called? = some n → st.target = some last → n ≤ last →
      (∀ t, st.scaledUp = some t → a.scaler.throttle ≤ a.now.since t) → Effect a st { st with target := some n } (.ok n)

theorem on_effect (a : Appraisal) (st : ScalerState) : Effect a st (a.on st).state (a.on st).result := by
  have hcalled := a.called_eq
  by_cases hlag : a.sample.lag ≤ 0
  · rw [on, TargetScaler.evaluate_idle hlag]
    exact .idles hlag
  · by_cases hshare : a.scaler.share a.wanted < 1
    · rw [if_pos (.inr hshare)] at hcalled
      rw [on, TargetScaler.evaluate_refused (by omega) hshare]
      exact .refuses _ (by omega) hcalled
    · have hpos : 0 < a.sample.lag := by omega
      have hone : 1 ≤ a.scaler.share a.wanted := by omega
      rw [if_neg (not_or.mpr ⟨hlag, hshare⟩)] at hcalled
      rw [on, (TargetScaler.evaluate_held hpos hone).1, (TargetScaler.evaluate_held hpos hone).2]
      generalize a.scaler.called a.wanted a.sample = n at hcalled ⊢
      obtain ⟨target, scaledUp⟩ := st
      cases target with
      | none =>
          by_cases hn : 0 < n
          · simpa [TargetScaler.hold, hn] using Effect.rises n hcalled (by simp) (fun _ => hn)
          · obtain rfl : n = 0 := by omega
            simpa [TargetScaler.hold] using Effect.lacks hcalled rfl
      | some last =>
          by_cases hlast : last < n
          · simpa [TargetScaler.hold, hlast] using Effect.rises n hcalled (by simpa using hlast) (by simp)
          · cases scaledUp with
            | none => simpa [TargetScaler.hold, hlast] using Effect.yields last n hcalled rfl (by omega) (by simp)
            | some t =>
                by_cases ht : a.now.since t < a.scaler.throttle
                · simpa [TargetScaler.hold, hlast, ht] using Effect.holds last n t hcalled rfl (by omega) rfl ht
                · simpa [TargetScaler.hold, hlast, ht] using
                    Effect.yields last n hcalled rfl (by omega) (by simpa using ht)

end Appraisal

structure Turn where
  appraisal : Appraisal
  result : Except ScalerError Nat

namespace Turn

/-- The last result behind a turn, given the one before it. A refusal is no result. -/
def after (last : Option Nat) (t : Turn) : Option Nat :=
  match t.result with
  | .ok n => some n
  | .error _ => last

/-- An increase was adopted: a result above the last one, or the first one to which lag led. -/
def rises (last : Option Nat) (t : Turn) : Bool :=
  match t.result, last with
  | .ok n, some m => m < n
  | .ok _, none => 0 < t.appraisal.sample.lag
  | .error _, _ => false

end Turn

abbrev Turns := List Turn

namespace Turns

def last? (h : Turns) : Option Nat := h.foldl Turn.after none

def risesAfter (last : Option Nat) : Turns → List Instant
  | [] => []
  | t :: ts => (if t.rises last then [t.appraisal.now] else []) ++ risesAfter (t.after last) ts

def rises (h : Turns) : List Instant := h.risesAfter none

def breadth (h : Turns) : Int := h.foldl (fun m t => max m t.appraisal.sample.partitions) 0

variable (h : Turns) (t : Turn)

@[simp] theorem last_nil : last? [] = none := rfl

@[simp] theorem rises_nil : rises [] = [] := rfl

@[simp] theorem breadth_nil : breadth [] = 0 := rfl

@[simp] theorem last_concat : last? (h ++ [t]) = t.after h.last? := by simp [last?]

@[simp] theorem breadth_concat : breadth (h ++ [t]) = max h.breadth t.appraisal.sample.partitions := by simp [breadth]

theorem risesAfter_append (last : Option Nat) (h' : Turns) :
    risesAfter last (h ++ h') = risesAfter last h ++ risesAfter (h.foldl Turn.after last) h' := by
  induction h generalizing last with
  | nil => rfl
  | cons t h ih => simp [risesAfter, ih]

@[simp] theorem rises_concat :
    rises (h ++ [t]) = rises h ++ if t.rises h.last? then [t.appraisal.now] else [] := by
  rw [rises, risesAfter_append, risesAfter, risesAfter, List.append_nil]
  rfl

end Turns

/-- What a state holds of its past. Without an increase there was never more than one worker, and no result exceeds the
partitions that were seen. -/
structure Recalls (st : ScalerState) (h : Turns) : Prop where
  target : st.target = h.last?
  scaledUp : st.scaledUp = h.rises.getLast?
  least : ∀ n, h.last? = some n → 1 ≤ n
  most : ∀ n, h.last? = some n → (n : Int) ≤ max 1 h.breadth
  level : h.rises = [] → ∀ n, h.last? = some n → n = 1

theorem recalls_nothing : Recalls {} [] := ⟨rfl, rfl, by simp, by simp, by simp⟩

namespace Recalls

variable {st : ScalerState} {h : Turns} {a : Appraisal}

theorem steady (hr : Recalls st h) {n : Nat} (hn : 1 ≤ n)
    (hmost : (n : Int) ≤ max 1 a.sample.partitions ∨ h.last? = some n)
    (hrises : Turn.rises h.last? ⟨a, .ok n⟩ = false) (hlevel : h.rises = [] → n = 1) :
    Recalls { st with target := some n } (h ++ [⟨a, .ok n⟩]) where
  target := by simp [Turn.after]
  scaledUp := by simp [hrises, hr.scaledUp]
  least m hm := by
    obtain rfl : n = m := by simpa [Turn.after] using hm
    exact hn
  most m hm := by
    obtain rfl : n = m := by simpa [Turn.after] using hm
    rw [Turns.breadth_concat]
    rcases hmost with hmost | hlast
    · exact Int.le_trans hmost (by simp only; omega)
    · exact Int.le_trans (hr.most _ hlast) (by omega)
  level hnone m hm := by
    obtain rfl : n = m := by simpa [Turn.after] using hm
    exact hlevel (by simpa [hrises] using hnone)

theorem refused (hr : Recalls st h) (e : ScalerError) : Recalls st (h ++ [⟨a, .error e⟩]) where
  target := by simp [Turn.after, hr.target]
  scaledUp := by simp [Turn.rises, hr.scaledUp]
  least := by simpa [Turn.after] using hr.least
  most n hn := by
    have := hr.most n (by simpa [Turn.after] using hn)
    rw [Turns.breadth_concat]
    omega
  level hnone := by simpa [Turn.after] using hr.level (by simpa [Turn.rises] using hnone)

theorem raised {n : Nat} (hn : 1 ≤ n) (hmost : (n : Int) ≤ max 1 a.sample.partitions)
    (hrises : Turn.rises h.last? ⟨a, .ok n⟩ = true) : Recalls ⟨some n, some a.now⟩ (h ++ [⟨a, .ok n⟩]) where
  target := by simp [Turn.after]
  scaledUp := by simp [hrises]
  least m hm := by
    obtain rfl : n = m := by simpa [Turn.after] using hm
    exact hn
  most m hm := by
    obtain rfl : n = m := by simpa [Turn.after] using hm
    rw [Turns.breadth_concat]
    exact Int.le_trans hmost (by simp only; omega)
  level hnone := by simp [hrises] at hnone

theorem on (hr : Recalls st h) (ha : a.sample.Grounded) :
    Recalls (a.on st).state (h ++ [⟨a, (a.on st).result⟩]) := by
  have he := a.on_effect st
  generalize (a.on st).state = st', (a.on st).result = r at he
  cases he with
  | idles hlag =>
      refine hr.steady (Nat.le_refl 1) (.inl (by omega)) ?_ (fun _ => rfl)
      cases hlast : h.last? with
      | none => simpa [Turn.rises] using hlag
      | some m => simpa [Turn.rises] using (show m ≠ 0 from Nat.one_le_iff_ne_zero.mp (hr.least m hlast))
  | refuses e hlag hcalled => exact hr.refused e
  | rises n hcalled hlast hnone =>
      obtain ⟨hlag, hcap, hone⟩ := Appraisal.called_spec hcalled
      refine raised (hone (ha hlag)) (by omega) ?_
      rw [hr.target] at hlast
      cases hlast' : h.last? with
      | none => simpa [Turn.rises] using hlag
      | some m => simpa [Turn.rises] using hlast m hlast'
  | lacks hcalled hnone =>
      -- Lag of some partition calls for one worker at the least.
      obtain ⟨hlag, -, hone⟩ := Appraisal.called_spec hcalled
      exact absurd (hone (ha hlag)) (by omega)
  | holds last n t hcalled hlast hn ht hwait =>
      rw [hr.target] at hlast
      have hst : st = { st with target := some last } := by rw [← hlast, ← hr.target]
      rw [hst]
      exact hr.steady (hr.least _ hlast) (.inr hlast) (by simp [hlast, Turn.rises])
        (fun hnone => hr.level hnone _ hlast)
  | yields last n hcalled hlast hn ht =>
      rw [hr.target] at hlast
      obtain ⟨hlag, hcap, hone⟩ := Appraisal.called_spec hcalled
      have hn' := hone (ha hlag)
      refine hr.steady hn' (.inl (by omega)) (by simpa [hlast, Turn.rises] using hn) (fun hnone => ?_)
      have := hr.level hnone _ hlast
      omega

theorem decrease_waited (hr : Recalls st h) (ha : a.sample.Grounded) {n m : Nat} (hlag : 0 < a.sample.lag)
    (hok : (a.on st).result = .ok n) (hlast : h.last? = some m) (hn : n < m) :
    ∃ t, h.rises.getLast? = some t ∧ a.scaler.throttle ≤ a.now.since t := by
  have he := a.on_effect st
  rw [hok] at he
  have htarget : st.target = some m := hr.target.trans hlast
  generalize (a.on st).state = st' at he
  cases he with
  | idles hnone => omega
  | rises n hcalled hbelow hnone => exact absurd (hbelow m htarget) (by omega)
  | lacks hcalled hnone => rw [htarget] at hnone; cases hnone
  | holds last k t hcalled hlast' hk ht hwait =>
      obtain rfl : m = n := Option.some.inj (htarget.symm.trans hlast')
      omega
  | yields last n hcalled hlast' hn' hwaited =>
      have hone := (Appraisal.called_spec hcalled).2.2 (ha hlag)
      -- More than one worker came of an increase.
      have hrisen : h.rises ≠ [] := fun hnone => by have := hr.level hnone m hlast; omega
      refine ⟨h.rises.getLast hrisen, List.getLast?_eq_some_getLast hrisen, hwaited _ ?_⟩
      rw [hr.scaledUp, List.getLast?_eq_some_getLast hrisen]

theorem increase_at_once (hr : Recalls st h) {n : Nat} (hcalled : a.called? = some n)
    (habove : ∀ m, h.last? = some m → m < n) : (a.on st).result = .ok n := by
  have he := a.on_effect st
  generalize (a.on st).state = st', (a.on st).result = r at he
  cases he with
  | idles hlag => exact absurd (Appraisal.called_spec hcalled).1 (by omega)
  | refuses e hlag hnone => rw [hcalled] at hnone; cases hnone
  | rises n' hcalled' => rw [Option.some.inj (hcalled.symm.trans hcalled')]
  | lacks hcalled' => rw [Option.some.inj (hcalled.symm.trans hcalled')]
  | holds last n' t hcalled' hlast hn =>
      obtain rfl := Option.some.inj (hcalled.symm.trans hcalled')
      exact absurd (habove last (hr.target.symm.trans hlast)) (by omega)
  | yields last n' hcalled' => rw [Option.some.inj (hcalled.symm.trans hcalled')]

theorem held_back (hr : Recalls st h) {n m : Nat} {t : Instant} (hcalled : a.called? = some n)
    (hlast : h.last? = some m) (hn : n ≤ m) (ht : h.rises.getLast? = some t)
    (hearly : a.now.since t < a.scaler.throttle) :
    (a.on st).result = .ok m := by
  have he := a.on_effect st
  have htarget : st.target = some m := hr.target.trans hlast
  generalize (a.on st).state = st', (a.on st).result = r at he
  cases he with
  | idles hlag => exact absurd (Appraisal.called_spec hcalled).1 (by omega)
  | refuses e hlag hnone => rw [hcalled] at hnone; cases hnone
  | rises n' hcalled' hbelow =>
      obtain rfl := Option.some.inj (hcalled.symm.trans hcalled')
      exact absurd (hbelow m htarget) (by omega)
  | lacks hcalled' hnone => rw [htarget] at hnone; cases hnone
  | holds last n' t' hcalled' hlast' => rw [Option.some.inj (htarget.symm.trans hlast')]
  | yields last n' hcalled' hlast' hn' hwaited => exact absurd (hwaited t (hr.scaledUp.trans ht)) (by omega)

end Recalls

def appraised (as : List Appraisal) : ScalerState × Turns :=
  as.foldl (fun x a => ((a.on x.1).state, x.2 ++ [⟨a, (a.on x.1).result⟩])) ({}, [])

theorem recalls_appraised {as : List Appraisal} (has : ∀ a ∈ as, a.sample.Grounded) :
    Recalls (appraised as).1 (appraised as).2 := by
  refine List.foldlRecOn (motive := fun x : ScalerState × Turns => Recalls x.1 x.2) as _ ?_ ?_
  · exact recalls_nothing
  · intro x hr a ha
    exact hr.on (has a ha)

/-- With lag, no result falls below the one before unless the last increase is long enough ago. What is called for is
given at once where it is more, and not given where it is no more and the last increase is recent. -/
theorem decreases_wait (as : List Appraisal) (a : Appraisal) (hground : ∀ b ∈ as ++ [a], b.sample.Grounded) :
    let (st, h) := appraised as
    let given := (a.on st).result
    (∀ n m, 0 < a.sample.lag → given = .ok n → h.last? = some m → n < m →
      ∃ t, h.rises.getLast? = some t ∧ a.scaler.throttle ≤ a.now.since t) ∧
    (∀ n, a.called? = some n → (∀ m, h.last? = some m → m < n) → given = .ok n) ∧
    (∀ n m t, a.called? = some n → h.last? = some m → n ≤ m → h.rises.getLast? = some t →
      a.now.since t < a.scaler.throttle → given = .ok m) := by
  have hr : Recalls (appraised as).1 (appraised as).2 :=
    recalls_appraised (fun b hb => hground b (List.mem_append_left _ hb))
  have ha : a.sample.Grounded := hground a (by simp)
  exact ⟨fun _ _ hlag hok hlast hn => hr.decrease_waited ha hlag hok hlast hn,
    fun _ hcalled habove => hr.increase_at_once hcalled habove,
    fun _ _ _ hcalled hlast hn ht hearly => hr.held_back hcalled hlast hn ht hearly⟩

def Appraisal.ofLag (lag second : Int) : Appraisal where
  scaler := { key := ⟨"ev", "g", "f"⟩, threshold := 10 }
  wanted := none
  sample := ⟨lag, 8, ⟨second, 0⟩⟩
  now := ⟨second, 0⟩

theorem decreases_wait_throttle :
    (appraised [.ofLag 50 0, .ofLag 20 59]).1 = ⟨some 5, some ⟨0, 0⟩⟩ ∧
    ((Appraisal.ofLag 20 60).on (appraised [.ofLag 50 0, .ofLag 20 59]).1).result = .ok 2 ∧
    60000000000 ≤ (⟨60, 0⟩ : Instant).since ⟨0, 0⟩ := by
  obtain ⟨hdown, -, -⟩ := decreases_wait [.ofLag 50 0, .ofLag 20 59] (.ofLag 20 60) (by decide)
  obtain ⟨t, ht, hthrottle⟩ := hdown 2 5 (by decide) rfl rfl (by decide)
  obtain rfl : ⟨0, 0⟩ = t := Option.some.inj ht
  exact ⟨rfl, rfl, hthrottle⟩

end StreamTrigger
