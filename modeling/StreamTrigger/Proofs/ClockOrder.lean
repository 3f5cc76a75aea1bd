import StreamTrigger.Proofs.Autoscaling
import Mathlib.Data.List.Infix

namespace StreamTrigger

namespace Turns

/-- No increase is adopted after one that read the clock later. -/
def Ordered (h : Turns) : Prop := h.rises.Pairwise (fun t u => t.nanos ≤ u.nanos)

instance (h : Turns) : Decidable h.Ordered := inferInstanceAs (Decidable (List.Pairwise _ _))

end Turns

/-- If the turn is a decrease in spite of lag, then the increases before it are all long enough ago. -/
def Turn.Waits (h : Turns) (t : Turn) : Prop :=
  ∀ n m, 0 < t.appraisal.sample.lag → t.result = .ok n → h.last? = some m → n < m →
    ∀ u ∈ h.rises, t.appraisal.scaler.throttle ≤ t.appraisal.now.since u

namespace Turns

/-- No decrease, with lag, comes before its time. -/
def Patient (h : Turns) : Prop := ∀ past t, past ++ [t] <+: h → t.Waits past

variable {h : Turns} {t : Turn}

theorem ordered_concat :
    Ordered (h ++ [t]) ↔
      h.Ordered ∧ (t.rises h.last? = true → ∀ u ∈ h.rises, u.nanos ≤ t.appraisal.now.nanos) := by
  rw [Ordered, rises_concat, List.pairwise_append]
  by_cases hr : t.rises h.last? = true
  · simp [hr, Ordered]
  · simp [hr, Ordered]

theorem Ordered.le_last (ho : h.Ordered) {u v : Instant} (hv : h.rises.getLast? = some v) (hu : u ∈ h.rises) :
    u.nanos ≤ v.nanos := by
  obtain ⟨us, hus⟩ := List.getLast?_eq_some_iff.mp hv
  rw [Ordered, hus] at ho
  rw [hus] at hu
  rcases List.mem_append.mp hu with hu | hu
  · exact (List.pairwise_append.mp ho).2.2 u hu v (List.mem_singleton_self v)
  · exact Int.le_of_eq (congrArg Instant.nanos (List.mem_singleton.mp hu))

theorem patient_nil : Patient [] := fun past t hpre => by simp at hpre

theorem Patient.concat (hp : h.Patient) (ht : t.Waits h) : Patient (h ++ [t]) := by
  intro past u hpre
  rcases List.prefix_concat_iff.mp hpre with heq | hpre
  · obtain ⟨rfl, hu⟩ := List.append_inj' heq rfl
    obtain rfl : u = t := by simpa using hu
    exact ht
  · exact hp past u hpre

end Turns

theorem Recalls.waits {st : ScalerState} {h : Turns} {a : Appraisal} (hr : Recalls st h) (ha : a.sample.Grounded)
    (ho : h.Ordered) (hnow : a.now.isLeap = false) (hticks : ∀ u ∈ h.rises, u.isLeap = false) :
    Turn.Waits h ⟨a, (a.on st).result⟩ := by
  intro n m hlag hok hlast hn u hu
  obtain ⟨t, ht, hthrottle⟩ := hr.decrease_waited ha hlag hok hlast hn
  have hmem := List.mem_of_getLast? ht
  have hle := ho.le_last ht hu
  calc a.scaler.throttle ≤ a.now.since t := hthrottle
    _ = a.now.nanos - t.nanos := Instant.since_eq hnow (hticks t hmem)
    _ ≤ a.now.nanos - u.nanos := by omega
    _ = a.now.since u := (Instant.since_eq hnow (hticks u hu)).symm

namespace Autoscaler

variable {β : Type} [Broker β] {s : Autoscaler β}

/-- As long as the key is not removed, the time of its last increase is never put back. -/
def Steady (s : Autoscaler β) (k : ScalerKey) (ms : List (Move β)) : Prop :=
  ∀ past m, past ++ [m] <+: ms → m ≠ .remove k → ∀ t, ((s.run past).state k).scaledUp = some t →
    ∃ u, ((s.run (past ++ [m])).state k).scaledUp = some u ∧ t.nanos ≤ u.nanos

/-- In every life of the key, the increases come in the order of the clock. -/
def InOrder (s : Autoscaler β) (k : ScalerKey) (ms : List (Move β)) : Prop :=
  ∀ past, past <+: ms → ((s.run past).life k).Ordered

def Patient (s : Autoscaler β) (k : ScalerKey) (ms : List (Move β)) : Prop :=
  ∀ past, past <+: ms → ((s.run past).life k).Patient

def readings (ms : List (Move β)) : List Int :=
  ms.filterMap (fun m => match m with
    | .read _ _ _ clock _ => some clock
    | _ => none)

theorem run_concat (s : Autoscaler β) (ms : List (Move β)) (m : Move β) : s.run (ms ++ [m]) = (s.run ms).move m := by
  simp [run]

inductive Lived (s : Autoscaler β) (k : ScalerKey) : Move β → Turns → Prop
  | same (m : Move β) : Lived s k m (s.life k)
  | turns (i : Nat) (a : Appraisal) : a ∈ s.calls → a.scaler.key = k → Lived s k (.update i) (s.life k ++ [s.turn a])
  | ends : Lived s k (.remove k) []

omit [Broker β] in
theorem life_join (s : Autoscaler β) (k : ScalerKey) (scaler : TargetScaler) (wanted : Option Nat) (now : Instant)
    (r : Except Fault LagSample) : (s.join scaler wanted now r).life k = s.life k := by
  cases r <;> rfl

theorem move_lived (s : Autoscaler β) (k : ScalerKey) (m : Move β) : s.Lived k m ((s.move m).life k) := by
  cases m with
  | measure i taken =>
      rw [move]
      split <;> exact .same _
  | invalidate i =>
      rw [move]
      split <;> exact .same _
  | read i scaler wanted clock taken =>
      rw [move]
      split
      · exact .same _
      · dsimp only
        rw [life_join]
        exact .same _
  | update i =>
      rw [move]
      split
      · exact .same _
      · next a ha =>
          change s.Lived k _ ((s.update a).life k)
          rw [life_update]
          split
          · next hk => exact .turns i a (List.mem_of_getElem? ha) hk
          · exact .same _
  | remove j =>
      change s.Lived k _ ((s.remove j).life k)
      rw [life_remove]
      split
      · next hj => exact hj ▸ .ends
      · exact .same _
  | elsewhere f => exact .same _

omit [Broker β] in
/-- An induction over the moves before a point, from the first one on. -/
theorem prefix_induction {P : List (Move β) → Prop} {ms : List (Move β)} (hnil : P [])
    (hmove : ∀ past m, past ++ [m] <+: ms → P past → P (past ++ [m])) : ∀ past, past <+: ms → P past := by
  intro past
  induction past using List.reverseRecOn with
  | nil => exact fun _ => hnil
  | append_singleton past m ih => exact fun h => hmove past m h (ih ((List.prefix_append past [m]).trans h))

theorem InOrder.of_steady {k : ScalerKey} {ms : List (Move β)} (hs : s.Kept) (hlife : s.life k = [])
    (hsteady : s.Steady k ms) : s.InOrder k ms := by
  refine prefix_induction (by rw [run, List.foldl_nil, hlife]; exact .nil) (fun past m hpre ho => ?_)
  have hlived := (s.run past).move_lived k m
  have hnext := hs.run (past ++ [m])
  have hpast := hs.run past
  rw [run_concat] at hnext ⊢
  generalize hl : ((s.run past).move m).life k = h' at hlived ⊢
  cases hlived with
  | same => exact ho
  | ends => exact .nil
  | turns i a ha hk =>
      refine Turns.ordered_concat.mpr ⟨ho, fun hrises u hu => ?_⟩
      -- The increase replaces the time of the last one, which is the latest of all before it.
      obtain ⟨last, hlast⟩ : ∃ t, ((s.run past).life k).rises.getLast? = some t :=
        ⟨_, List.getLast?_eq_some_getLast (List.ne_nil_of_mem hu)⟩
      have hup := (hpast.recalls k).scaledUp.trans hlast
      obtain ⟨v, hv, hle⟩ := hsteady past (.update i) hpre (by simp) last hup
      rw [run_concat, (hnext.recalls k).scaledUp, hl, Turns.rises_concat, if_pos hrises, List.getLast?_concat] at hv
      obtain rfl := Option.some.inj hv
      exact Int.le_trans (ho.le_last hlast hu) hle

theorem InOrder.steady {k : ScalerKey} {ms : List (Move β)} (hs : s.Kept) (ho : s.InOrder k ms) : s.Steady k ms := by
  intro past m hpre hm t ht
  have hnext := ho (past ++ [m]) hpre
  have hlived := (s.run past).move_lived k m
  rw [((hs.run past).recalls k).scaledUp] at ht
  rw [((hs.run (past ++ [m])).recalls k).scaledUp]
  rw [run_concat] at hnext ⊢
  generalize ((s.run past).move m).life k = h' at hlived hnext ⊢
  cases hlived with
  | same => exact ⟨t, ht, Int.le_refl _⟩
  | ends => exact absurd rfl hm
  | turns i a ha hk =>
      by_cases hrises : ((s.run past).turn a).rises ((s.run past).life k).last? = true
      · have hle := (Turns.ordered_concat.mp hnext).2 hrises t (List.mem_of_getLast? ht)
        exact ⟨a.now, by rw [Turns.rises_concat, if_pos hrises, List.getLast?_concat]; rfl, hle⟩
      · exact ⟨t, by rw [Turns.rises_concat, if_neg hrises, List.append_nil, ht], Int.le_refl _⟩

theorem InOrder.patient {k : ScalerKey} {ms : List (Move β)} (hs : s.Kept) (hlife : s.life k = [])
    (ho : s.InOrder k ms) : s.Patient k ms := by
  refine prefix_induction (by rw [run, List.foldl_nil, hlife]; exact Turns.patient_nil) (fun past m hpre hp => ?_)
  have hpast := hs.run past
  have hlived := (s.run past).move_lived k m
  rw [run_concat]
  generalize ((s.run past).move m).life k = h' at hlived ⊢
  cases hlived with
  | same => exact hp
  | ends => exact Turns.patient_nil
  | turns i a ha hk =>
      subst hk
      obtain ⟨hground, hnow⟩ := hpast.calls a ha
      exact hp.concat ((hpast.recalls _).waits hground (ho past ((List.prefix_append past _).trans hpre)) hnow
        (hpast.ticks _))

/-- The time of the last increase is never put back exactly when the increases are adopted in the order in which their
calls read the clock. Then no decrease, with lag, comes before its time. -/
theorem steady_iff_inOrder {ps : List LagProvider} (hps : ∀ p ∈ ps, p.last = none) (b : β) (k : ScalerKey)
    (ms : List (Move β)) :
    ((opened ps b).Steady k ms ↔ (opened ps b).InOrder k ms) ∧
      ((opened ps b).InOrder k ms → (opened ps b).Patient k ms) := by
  have hs := kept_opened hps b
  exact ⟨⟨InOrder.of_steady hs rfl, InOrder.steady hs⟩, InOrder.patient hs rfl⟩

def threeCalls (first second : Nat) : List (Move ScriptedBroker) :=
  [ask 10 0, ask 14 30, .update first, .update second, ask 24 61, .update 0]

theorem steady_iff_inOrder_throttle :
    busy.Steady busyKey (threeCalls 0 0) ∧ busy.Patient busyKey (threeCalls 0 0) ∧
    ((busy.run (threeCalls 0 0)).life busyKey).map (fun t => t.result.toOption) = [some 7, some 7, some 3] := by
  obtain ⟨hiff, hpatient⟩ := steady_iff_inOrder busy_new busy.broker busyKey (threeCalls 0 0)
  have ho : busy.InOrder busyKey (threeCalls 0 0) := fun past hpast => by
    have hall : ∀ past ∈ (threeCalls 0 0).inits, ((busy.run past).life busyKey).Ordered := by decide
    exact hall past ((List.mem_inits _ _).mpr hpast)
  exact ⟨hiff.mpr ho, hpatient ho, rfl⟩

/-- The second call comes to the registry before the first: five workers at second 30, then seven at second 0, which is
the time of the last increase from then on. The third call takes four of them away, 31 seconds after second 30. -/
theorem increase_put_back :
    (readings (threeCalls 1 0)).Pairwise (· ≤ ·) ∧ ¬ busy.Steady busyKey (threeCalls 1 0) ∧
      ¬ busy.Patient busyKey (threeCalls 1 0) := by
  refine ⟨by decide, fun hsteady => ?_, fun hpatient => ?_⟩
  · obtain ⟨u, hu, hle⟩ := hsteady [ask 10 0, ask 14 30, .update 1] (.update 0) ⟨[ask 24 61, .update 0], rfl⟩ (by simp)
      ⟨30, 0⟩ rfl
    obtain rfl : ⟨0, 0⟩ = u := Option.some.inj hu
    exact absurd hle (by decide)
  · have hwaits := hpatient (threeCalls 1 0) (List.prefix_refl _)
      (((busy.run (threeCalls 1 0)).life busyKey).take 2)
      (((busy.run (threeCalls 1 0)).life busyKey).get ⟨2, by decide⟩) ⟨[], rfl⟩
    exact absurd (hwaits 3 7 (by decide) rfl rfl (by decide) ⟨30, 0⟩ (by decide)) (by decide)

end Autoscaler

end StreamTrigger
