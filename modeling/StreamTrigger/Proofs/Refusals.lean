import StreamTrigger.Proofs.Hysteresis

namespace StreamTrigger

theorem TargetScaler.state_refused {s : TargetScaler} {state : ScalerState} {wanted : Option Nat} {sample : LagSample}
    {now : Instant} {err : ScalerError} (h : (s.evaluate state wanted sample now).result = .error err) :
    (s.evaluate state wanted sample now).state = state := by
  obtain ⟨-, hlag, hshare⟩ := (evaluate_error_iff err).mp h
  rw [evaluate_refused hlag hshare]

namespace Registry

def standing (r : Registry) (k : ScalerKey) : ScalerState := (r.state? k).getD {}

def evaluations (r : Registry) : List Appraisal → List Evaluation
  | [] => []
  | a :: as =>
      let (r, e) := r.evaluate a.scaler a.wanted a.sample a.now
      e :: r.evaluations as

def Alike (r r' : Registry) : Prop := ∀ k, r.standing k = r'.standing k

variable {r r' : Registry} {s : TargetScaler} {wanted : Option Nat} {sample : LagSample} {now : Instant}

theorem evaluate_result (r : Registry) (s : TargetScaler) (wanted : Option Nat) (sample : LagSample) (now : Instant) :
    (r.evaluate s wanted sample now).2 = s.evaluate (r.standing s.key) wanted sample now := rfl

theorem state_evaluate (k : ScalerKey) : (r.evaluate s wanted sample now).1.state? k =
    if s.key = k then some (s.evaluate (r.standing s.key) wanted sample now).state else r.state? k :=
  Table.get?_insert ..

theorem standing_evaluate (k : ScalerKey) : (r.evaluate s wanted sample now).1.standing k =
    if s.key = k then (s.evaluate (r.standing s.key) wanted sample now).state else r.standing k := by
  rw [standing, state_evaluate]
  split <;> rfl

theorem size_evaluate : (r.evaluate s wanted sample now).1.size =
    r.size + if (r.state? s.key).isSome then 0 else 1 :=
  Table.size_insert ..

theorem Alike.evaluate (h : r.Alike r') (s : TargetScaler) (wanted : Option Nat) (sample : LagSample) (now : Instant) :
    (r.evaluate s wanted sample now).2 = (r'.evaluate s wanted sample now).2 ∧
      (r.evaluate s wanted sample now).1.Alike (r'.evaluate s wanted sample now).1 := by
  refine ⟨?_, fun k => ?_⟩
  · rw [evaluate_result, evaluate_result, h]
  · rw [standing_evaluate, standing_evaluate, h, h]

theorem Alike.evaluations (h : r.Alike r') (as : List Appraisal) : r.evaluations as = r'.evaluations as := by
  induction as generalizing r r' with
  | nil => rfl
  | cons a as ih =>
      obtain ⟨hresult, halike⟩ := h.evaluate a.scaler a.wanted a.sample a.now
      simp only [Registry.evaluations, hresult, ih halike]

theorem state_refused {err : ScalerError} (h : (r.evaluate s wanted sample now).2.result = .error err) :
    (r.evaluate s wanted sample now).1.state? s.key = some (r.standing s.key) := by
  rw [evaluate_result] at h
  rw [state_evaluate, if_pos rfl, TargetScaler.state_refused h]

theorem alike_refused {err : ScalerError} (h : (r.evaluate s wanted sample now).2.result = .error err) :
    (r.evaluate s wanted sample now).1.Alike r := by
  intro k
  by_cases hk : k = s.key
  · rw [hk, standing, state_refused h]
    rfl
  · rw [standing_evaluate, if_neg (Ne.symm hk)]

/-- An evaluation changes the state of its own key at most. If it is refused, its key has the state that it had, or that
of a new trigger where it was not known, and no later evaluation comes out otherwise for it. -/
theorem refusal_registers_at_most (r : Registry) (s : TargetScaler) (wanted : Option Nat) (sample : LagSample)
    (now : Instant) :
    let (after, e) := r.evaluate s wanted sample now
    (∀ k, k ≠ s.key → after.state? k = r.state? k) ∧
    (∀ err, e.result = .error err →
      after.state? s.key = some ((r.state? s.key).getD {}) ∧
      after.size = r.size + (if (r.state? s.key).isSome then 0 else 1) ∧
      ∀ as, after.evaluations as = r.evaluations as) := by
  refine ⟨fun k hk => ?_, fun err herr => ⟨state_refused herr, size_evaluate, (alike_refused herr).evaluations⟩⟩
  exact (state_evaluate k).trans (if_neg (Ne.symm hk))

def oneTrigger : Registry := (({} : Registry).evaluate (.ofThreshold 10) none ⟨50, 8, ⟨0, 0⟩⟩ ⟨0, 0⟩).1

def idleWorkers : TargetScaler := { key := ⟨"ev", "g", "h"⟩, threshold := 0 }

theorem refusal_registers_at_most_beside :
    let (after, e) := oneTrigger.evaluate idleWorkers none ⟨20, 8, ⟨30, 0⟩⟩ ⟨30, 0⟩
    e.result = .error (.invalidConcurrency 0) ∧ after.state? ⟨"ev", "g", "f"⟩ = some ⟨some 5, some ⟨0, 0⟩⟩ ∧
    after.state? ⟨"ev", "g", "h"⟩ = some {} ∧ after.size = 2 ∧
    after.evaluations [.ofLag 20 59, .ofLag 20 60] = oneTrigger.evaluations [.ofLag 20 59, .ofLag 20 60] := by
  obtain ⟨hothers, hrefused⟩ := refusal_registers_at_most oneTrigger idleWorkers none ⟨20, 8, ⟨30, 0⟩⟩ ⟨30, 0⟩
  obtain ⟨hstate, hsize, hlater⟩ := hrefused (.invalidConcurrency 0) rfl
  exact ⟨rfl, hothers ⟨"ev", "g", "f"⟩ (by decide), hstate, hsize, hlater _⟩

/-- The first evaluation of a trigger is refused, and the trigger is known. -/
theorem refusal_registers :
    let (after, e) := ({} : Registry).evaluate (.ofThreshold 10) (some 0) ⟨70, 1, ⟨0, 0⟩⟩ ⟨0, 0⟩
    e.result = .error (.invalidConcurrency 0) ∧
    ({} : Registry).state? ⟨"ev", "g", "f"⟩ = none ∧ after.state? ⟨"ev", "g", "f"⟩ = some {} ∧
    ({} : Registry).size = 0 ∧ after.size = 1 := ⟨rfl, rfl, rfl, rfl, rfl⟩

end Registry

end StreamTrigger
