import StreamTrigger.Scaling.Target

namespace StreamTrigger

namespace Word

/-- Words are divided toward zero. There is no result for a divisor of zero, nor where the quotient is no word. -/
def div? (x y : Int) : Option Int := if y ≠ 0 ∧ Fits (x.tdiv y) then some (x.tdiv y) else none

def rem? (x y : Int) : Option Int := if y ≠ 0 ∧ Fits (x.tdiv y) then some (x.tmod y) else none

def add? (x y : Int) : Option Int := (add x y).toOption

def count? (x : Int) : Option Nat := if 0 ≤ x ∧ x ≤ 4294967295 then some x.toNat else none

theorem div_eq {x y : Int} (hx : 0 ≤ x) (hfits : Fits x) (hy : 1 ≤ y) :
    div? x y = some (x / y) ∧ rem? x y = some (x % y) := by
  have hdiv : x.tdiv y = x / y := Int.tdiv_eq_ediv_of_nonneg hx
  have hle : x / y ≤ x := Int.ediv_le_self y hx
  have hnonneg : 0 ≤ x / y := Int.ediv_nonneg hx (by omega)
  have hquotient : y ≠ 0 ∧ Fits (x.tdiv y) := by
    rw [hdiv]
    simp only [Fits, least, greatest] at hfits ⊢
    omega
  rw [div?, rem?, if_pos hquotient, if_pos hquotient, hdiv, Int.tmod_eq_emod_of_nonneg hx]
  exact ⟨rfl, rfl⟩

end Word

namespace Instant

def furthest : Int := 300000 * 366 * 86400

structure InCalendar (t : Instant) : Prop where
  past : -furthest ≤ t.second
  future : t.second ≤ furthest
  nano : t.nano < 2 * Span.second

end Instant

namespace TargetScaler

def age? (now before : Instant) : Option Int :=
  if -longest ≤ now.since before ∧ now.since before ≤ longest then some (now.since before) else none

theorem age_eq {now before : Instant} (hnow : now.InCalendar) (hbefore : before.InCalendar) :
    age? now before = some (now.since before) := by
  obtain ⟨hpast, hfuture, hnano⟩ := hnow
  obtain ⟨hpast', hfuture', hnano'⟩ := hbefore
  apply if_pos
  have hleap : -1 ≤ now.leapsSince before ∧ now.leapsSince before ≤ 1 := by
    rw [Instant.leapsSince]
    split
    · omega
    · split <;> omega
  simp only [Instant.since, Instant.nanos, longest, Instant.furthest, Span.second] at *
  omega

def share (s : TargetScaler) (wanted : Option Nat) : Int :=
  match wanted with
  | some n => n
  | none => s.threshold

/-- The number of workers as words carry it out. There is none where a step divides by zero or leaves the range of its
words. -/
def count? (lag concurrency partitions : Int) : Option Nat := do
  let quotient ← Word.div? lag concurrency
  let rest ← Word.rem? lag concurrency
  let raw ← Word.add? quotient (if rest = 0 then 0 else 1)
  Word.count? (max (min raw partitions) 0)

def hold? (s : TargetScaler) (state : ScalerState) (wanted : Nat) (now : Instant) : Option (Nat × ScalerState) :=
  match state.target with
  | none => some (wanted, if 0 < wanted then { state with scaledUp := some now } else state)
  | some last =>
      if last < wanted then some (wanted, { state with scaledUp := some now })
      else
        match state.scaledUp with
        | some t => (age? now t).map (fun age => (if age < s.throttle then last else wanted, state))
        | none => some (wanted, state)

def evaluate? (s : TargetScaler) (state : ScalerState) (wanted : Option Nat) (sample : LagSample) (now : Instant) :
    Option Evaluation :=
  if sample.lag ≤ 0 then some ⟨{ state with target := some 1 }, .ok 1, [.targetGiven s.key.topic 1]⟩
  else
    match s.concurrency wanted with
    | .error e => some ⟨state, .error e, []⟩
    | .ok c => do
        let count ← count? sample.lag c sample.partitions
        let (target, held) ← s.hold? state count now
        let change := if state.target = some target then []
          else [.targetChanged s.key.topic s.key.group sample.lag sample.partitions c target]
        some ⟨{ held with target := some target }, .ok target, change ++ [.targetGiven s.key.topic target]⟩

section Shares

variable {lag c m partitions : Int}

theorem shares_le_iff (hc : 1 ≤ c) : shares lag c ≤ m ↔ lag ≤ m * c := by
  have hpos : 0 < c := by omega
  rw [shares]
  split
  · next hrest =>
      obtain ⟨k, rfl⟩ := Int.dvd_of_emod_eq_zero hrest
      rw [Int.add_zero, Int.mul_ediv_cancel_left k (by omega), Int.mul_comm c k]
      exact (Int.mul_le_mul_right hpos).symm
  · next hrest =>
      have hne : lag ≠ m * c := fun h => hrest (by rw [h, Int.mul_emod_left])
      have hlt : lag / c < m ↔ lag < m * c := Int.ediv_lt_iff_lt_mul hpos
      omega

theorem lt_shares_iff (hc : 1 ≤ c) : m < shares lag c ↔ m * c < lag := by
  rw [← Int.not_le, shares_le_iff hc, Int.not_le]

theorem one_le_shares (hlag : 0 < lag) (hc : 1 ≤ c) : 1 ≤ shares lag c := by
  have h : 0 < shares lag c := (lt_shares_iff hc).mpr (by omega)
  omega

theorem shares_le_lag (hlag : 0 < lag) (hc : 1 ≤ c) : shares lag c ≤ lag := by
  apply (shares_le_iff hc).mpr
  calc lag = lag * 1 := (Int.mul_one lag).symm
    _ ≤ lag * c := Int.mul_le_mul_of_nonneg_left hc (Int.le_of_lt hlag)

theorem shares_mono {lag' c' : Int} (hlag : 0 < lag) (hlags : lag ≤ lag') (hc : 1 ≤ c) (hcs : c ≤ c') :
    shares lag c' ≤ shares lag' c := by
  apply (shares_le_iff (Int.le_trans hc hcs)).mpr
  have henough : lag' ≤ shares lag' c * c := (shares_le_iff hc).mp (Int.le_refl _)
  have hone : 1 ≤ shares lag' c := one_le_shares (by omega) hc
  calc lag ≤ lag' := hlags
    _ ≤ shares lag' c * c := henough
    _ ≤ shares lag' c * c' := Int.mul_le_mul_of_nonneg_left hcs (by omega)

theorem cap_le (target partitions : Int) : (cap target partitions : Int) ≤ max partitions 0 := by
  rw [cap]
  omega

theorem one_le_cap {target partitions : Int} (ht : 1 ≤ target) (hp : 1 ≤ partitions) : 1 ≤ cap target partitions := by
  rw [cap]
  omega

theorem cap_mono {target target' partitions partitions' : Int} (ht : target ≤ target') (hp : partitions ≤ partitions') :
    cap target partitions ≤ cap target' partitions' := by
  rw [cap, cap]
  omega

/-- No fewer than `m` workers can work through the lag, and `m` can, unless there are no more partitions. -/
def IsLeast (lag c partitions m : Int) : Prop :=
  m = partitions ∧ (m - 1) * c < lag ∨ m < partitions ∧ (m - 1) * c < lag ∧ lag ≤ m * c

theorem isLeast_iff (hlag : 0 < lag) (hc : 1 ≤ c) (hp : 1 ≤ partitions) :
    IsLeast lag c partitions m ↔ m = cap (shares lag c) partitions := by
  have hone : 1 ≤ shares lag c := one_le_shares hlag hc
  rw [IsLeast, ← lt_shares_iff hc, ← shares_le_iff hc, cap]
  omega

theorem count?_eq (hlag : 0 < lag) (hfits : Word.Fits lag) (hc : 1 ≤ c) (hp : partitions ≤ LagProvider.greatestCount) :
    count? lag c partitions = some (cap (shares lag c) partitions) := by
  obtain ⟨hquotient, hrest⟩ := Word.div_eq (Int.le_of_lt hlag) hfits hc
  have hone : 1 ≤ shares lag c := one_le_shares hlag hc
  have hraw : Word.add? (lag / c) (if lag % c = 0 then 0 else 1) = some (shares lag c) := by
    -- The number of shares is no more than the lag, so that the one for the rest is no step out of the words.
    have hle : shares lag c ≤ lag := shares_le_lag hlag hc
    have hsum : Word.Fits (lag / c + if lag % c = 0 then 0 else 1) := by
      change Word.Fits (shares lag c)
      simp only [Word.Fits, Word.least, Word.greatest] at hfits ⊢
      omega
    rw [Word.add?, Word.add, if_pos hsum]
    rfl
  have hcount : Word.count? (max (min (shares lag c) partitions) 0) = some (cap (shares lag c) partitions) := by
    apply if_pos
    simp only [LagProvider.greatestCount] at hp
    omega
  rw [count?, hquotient, hrest]
  exact (congrArg (Option.bind · _) hraw).trans hcount

end Shares

variable {s s' : TargetScaler} {state : ScalerState} {wanted wanted' : Option Nat} {sample : LagSample} {now : Instant}

theorem concurrency_eq : s.concurrency wanted =
    if s.share wanted < 1 then .error (.invalidConcurrency (s.share wanted)) else .ok (s.share wanted) := rfl

theorem concurrency_ok {c : Int} (h : s.concurrency wanted = .ok c) : 1 ≤ c := by
  rw [concurrency_eq] at h
  split at h
  · cases h
  · obtain rfl := Except.ok.inj h
    omega

theorem hold?_eq (n : Nat) (hnow : now.InCalendar) (hstate : ∀ t ∈ state.scaledUp, t.InCalendar) :
    s.hold? state n now = some (s.hold state n now) := by
  obtain ⟨target, scaledUp⟩ := state
  cases target with
  | none => rfl
  | some last =>
      simp only [hold?, hold]
      split
      · rfl
      · cases scaledUp with
        | none => rfl
        | some t => simp only [age_eq hnow (hstate t rfl), Option.map_some]

theorem evaluate?_eq (hfits : Word.Fits sample.lag) (hp : sample.partitions ≤ LagProvider.greatestCount)
    (hnow : now.InCalendar) (hstate : ∀ t ∈ state.scaledUp, t.InCalendar) :
    s.evaluate? state wanted sample now = some (s.evaluate state wanted sample now) := by
  rw [evaluate?, evaluate]
  split
  · rfl
  · next hlag =>
      cases hc : s.concurrency wanted with
      | error e => rfl
      | ok c =>
          simp only [count?_eq (by omega) hfits (concurrency_ok hc) hp, hold?_eq _ hnow hstate, Option.bind_eq_bind,
            Option.bind_some]

def floor (s : TargetScaler) (state : ScalerState) (now : Instant) : Nat :=
  match state.scaledUp with
  | some t => if now.since t < s.throttle then state.target.getD 0 else 0
  | none => 0

theorem hold_eq_max (n : Nat) : (s.hold state n now).1 = max (s.floor state now) n := by
  obtain ⟨target, scaledUp⟩ := state
  cases target with
  | none =>
      have hfloor : s.floor ⟨none, scaledUp⟩ now = 0 := by
        simp only [floor, Option.getD_none]
        split
        · exact ite_self 0
        · rfl
      rw [hfloor, Nat.zero_max]
      rfl
  | some last =>
      cases scaledUp with
      | none =>
          simp only [hold, floor, Nat.zero_max]
          split <;> rfl
      | some t =>
          simp only [hold, floor, Option.getD_some]
          -- A result above the last one is above the floor, and one that is not above it is at the floor or free of it.
          by_cases hlast : last < n
          · rw [if_pos hlast]
            split <;> simp only <;> omega
          · rw [if_neg hlast]
            split <;> simp only <;> omega

theorem floor_eq (h : s.throttle = s'.throttle) : s.floor state now = s'.floor state now := by
  rw [floor, floor, h]

theorem evaluate_idle (hlag : sample.lag ≤ 0) :
    s.evaluate state wanted sample now = ⟨{ state with target := some 1 }, .ok 1, [.targetGiven s.key.topic 1]⟩ :=
  if_pos hlag

theorem evaluate_refused (hlag : 0 < sample.lag) (hshare : s.share wanted < 1) :
    s.evaluate state wanted sample now = ⟨state, .error (.invalidConcurrency (s.share wanted)), []⟩ := by
  rw [evaluate, if_neg (by omega), concurrency_eq, if_pos hshare]

def called (s : TargetScaler) (wanted : Option Nat) (sample : LagSample) : Nat :=
  cap (shares sample.lag (s.share wanted)) sample.partitions

theorem evaluate_held (hlag : 0 < sample.lag) (hshare : 1 ≤ s.share wanted) :
    (s.evaluate state wanted sample now).result = .ok (s.hold state (s.called wanted sample) now).1 ∧
    (s.evaluate state wanted sample now).state =
      { (s.hold state (s.called wanted sample) now).2 with
        target := some (s.hold state (s.called wanted sample) now).1 } := by
  rw [evaluate, if_neg (by omega), concurrency_eq, if_neg (by omega)]
  exact ⟨rfl, rfl⟩

theorem result_eq_max (hlag : 0 < sample.lag) (hshare : 1 ≤ s.share wanted) :
    (s.evaluate state wanted sample now).result = .ok (max (s.floor state now) (s.called wanted sample)) := by
  rw [(evaluate_held hlag hshare).1, hold_eq_max]

theorem evaluate_error_iff (e : ScalerError) : (s.evaluate state wanted sample now).result = .error e ↔
    e = .invalidConcurrency (s.share wanted) ∧ 0 < sample.lag ∧ s.share wanted < 1 := by
  by_cases hlag : 0 < sample.lag
  · by_cases hshare : s.share wanted < 1
    · rw [evaluate_refused hlag hshare]
      simp [hlag, hshare, eq_comm]
    · rw [(evaluate_held hlag (by omega)).1]
      simp [hshare]
  · rw [evaluate_idle (by omega)]
    simp [hlag]

/-- As words carry it out, an evaluation has a result for every lag, every number of partitions and every time. With lag
and a concurrency of at least one, the throttle is given the least number of workers that can work through the lag.
A concurrency below one is refused where there is lag, and only there, and the state stays what it was. -/
theorem counts_least (s : TargetScaler) (state : ScalerState) (wanted : Option Nat) (sample : LagSample) (now : Instant)
    (hfits : Word.Fits sample.lag) (hp : sample.partitions ≤ LagProvider.greatestCount)
    (hnow : now.InCalendar) (hstate : ∀ t ∈ state.scaledUp, t.InCalendar) :
    let e := s.evaluate state wanted sample now
    s.evaluate? state wanted sample now = some e ∧
    (0 < sample.lag → 1 ≤ sample.partitions → 1 ≤ s.share wanted →
      ∃ n : Nat, (∀ m : Int, IsLeast sample.lag (s.share wanted) sample.partitions m ↔ m = n) ∧
        e.result = .ok (s.hold state n now).1 ∧
        e.state = { (s.hold state n now).2 with target := some (s.hold state n now).1 }) ∧
    (∀ err, e.result = .error err ↔
      err = .invalidConcurrency (s.share wanted) ∧ 0 < sample.lag ∧ s.share wanted < 1) ∧
    (∀ err, e.result = .error err → e.state = state) := by
  refine ⟨evaluate?_eq hfits hp hnow hstate, ?_, evaluate_error_iff, ?_⟩
  · intro hlag hone hshare
    exact ⟨_, fun m => isLeast_iff hlag hshare hone, evaluate_held hlag hshare⟩
  · intro err herr
    obtain ⟨-, hlag, hshare⟩ := (evaluate_error_iff err).mp herr
    rw [evaluate_refused hlag hshare]

def ofThreshold (threshold : Int) : TargetScaler := { key := ⟨"ev", "g", "f"⟩, threshold }

theorem counts_least_greatest :
    Word.Fits Word.greatest ∧
    ((ofThreshold (Word.greatest - 1)).evaluate? {} none ⟨Word.greatest, 8, ⟨0, 0⟩⟩ ⟨0, 0⟩).isSome ∧
    (∀ m : Int, IsLeast Word.greatest (Word.greatest - 1) 8 m ↔ m = 2) ∧
    ((ofThreshold (Word.greatest - 1)).evaluate {} none ⟨Word.greatest, 8, ⟨0, 0⟩⟩ ⟨0, 0⟩).result = .ok 2 := by
  have hfits : Word.Fits Word.greatest := by decide
  have hnow : Instant.InCalendar ⟨0, 0⟩ := ⟨by decide, by decide, by decide⟩
  obtain ⟨hwords, hleast, -, -⟩ := counts_least (ofThreshold (Word.greatest - 1)) {} none
    ⟨Word.greatest, 8, ⟨0, 0⟩⟩ ⟨0, 0⟩ hfits (by decide) hnow (by intro t ht; cases ht)
  obtain ⟨n, hn, hresult, -⟩ := hleast (by decide) (by decide) (by decide)
  have htwo : (2 : Int) = n := (hn 2).mp (.inr (by decide))
  obtain rfl : n = 2 := by omega
  exact ⟨hfits, by rw [hwords]; rfl, hn, hresult⟩

/-- No fewer workers come of more lag, of more partitions or of weaker workers, whatever the throttle does. -/
theorem result_mono (s s' : TargetScaler) (state : ScalerState) (wanted wanted' : Option Nat) (now : Instant)
    {x y : LagSample} (hthrottle : s.throttle = s'.throttle) (hone : 1 ≤ x.partitions)
    (hshare : 1 ≤ s'.share wanted') (hlags : x.lag ≤ y.lag) (hps : x.partitions ≤ y.partitions)
    (hshares : s'.share wanted' ≤ s.share wanted) :
    ∃ n m, (s.evaluate state wanted x now).result = .ok n ∧ (s'.evaluate state wanted' y now).result = .ok m ∧
      n ≤ m := by
  by_cases hx : 0 < x.lag
  · have hcalled : s.called wanted x ≤ s'.called wanted' y := cap_mono (shares_mono hx hlags hshare hshares) hps
    refine ⟨_, _, result_eq_max hx (by omega), result_eq_max (by omega) hshare, ?_⟩
    rw [floor_eq hthrottle]
    omega
  · by_cases hy : 0 < y.lag
    · -- One worker stays without lag, and lag of some partition calls for one at the least.
      have hcalled : 1 ≤ s'.called wanted' y := one_le_cap (one_le_shares hy hshare) (by omega)
      refine ⟨1, _, by rw [evaluate_idle (by omega)], result_eq_max hy hshare, ?_⟩
      omega
    · refine ⟨1, 1, ?_, ?_, Nat.le_refl 1⟩
      · rw [evaluate_idle (by omega)]
      · rw [evaluate_idle (by omega)]

theorem result_mono_held :
    ((ofThreshold 10).evaluate ⟨some 5, some ⟨0, 0⟩⟩ none ⟨20, 8, ⟨30, 0⟩⟩ ⟨30, 0⟩).result = .ok 5 ∧
    ((ofThreshold 10).evaluate ⟨some 5, some ⟨0, 0⟩⟩ (some 3) ⟨20, 9, ⟨30, 0⟩⟩ ⟨30, 0⟩).result = .ok 7 ∧ 5 ≤ 7 := by
  have hfive : ((ofThreshold 10).evaluate ⟨some 5, some ⟨0, 0⟩⟩ none ⟨20, 8, ⟨30, 0⟩⟩ ⟨30, 0⟩).result = .ok 5 := rfl
  have hseven : ((ofThreshold 10).evaluate ⟨some 5, some ⟨0, 0⟩⟩ (some 3) ⟨20, 9, ⟨30, 0⟩⟩ ⟨30, 0⟩).result = .ok 7 :=
    rfl
  obtain ⟨n, m, hn, hm, hle⟩ := result_mono (ofThreshold 10) (ofThreshold 10) ⟨some 5, some ⟨0, 0⟩⟩ none (some 3) ⟨30, 0⟩
    (x := ⟨20, 8, ⟨30, 0⟩⟩) (y := ⟨20, 9, ⟨30, 0⟩⟩) rfl (by decide) (by decide) (by decide) (by decide) (by decide)
  obtain rfl : 5 = n := Except.ok.inj (hfive.symm.trans hn)
  obtain rfl : 7 = m := Except.ok.inj (hseven.symm.trans hm)
  exact ⟨hfive, hseven, hle⟩

end TargetScaler

end StreamTrigger
