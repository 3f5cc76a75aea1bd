import StreamTrigger.Scaling.Monitor
import Mathlib.Data.List.DropRight

namespace StreamTrigger

namespace Word

theorem lt_mulClamped {x y z : Int} (hleast : least ≤ x) (hgreatest : x < greatest) :
    x < mulClamped y z ↔ x < y * z := by
  rw [mulClamped, clamp]
  generalize y * z = product
  omega

end Word

namespace TopicScaler

section Recent

variable {α : Type}

theorem length_recent (n : Nat) (xs : List α) : (recent n xs).length = min xs.length n := by
  rw [recent, List.length_drop]
  omega

theorem recent_eq_rtake (n : Nat) (xs : List α) : recent n xs = xs.rtake n := rfl

theorem recent_eq_self {n : Nat} {xs : List α} (h : xs.length ≤ n) : recent n xs = xs := by
  rw [recent, Nat.sub_eq_zero_of_le h, List.drop_zero]

theorem recent_suffix (n : Nat) (xs : List α) : recent n xs <:+ xs := List.drop_suffix ..

theorem recent_recent (n : Nat) (xs : List α) : recent n (recent n xs) = recent n xs :=
  recent_eq_self (by rw [length_recent]; exact Nat.min_le_right ..)

theorem recent_append (n : Nat) (xs ys : List α) : recent n (recent n xs ++ ys) = recent n (xs ++ ys) := by
  have hle : xs.length - n ≤ xs.length := Nat.sub_le ..
  have hwhole : recent n xs ++ ys = (xs ++ ys).drop (xs.length - n) := (List.drop_append_of_le_length hle).symm
  rw [hwhole, recent, recent, List.drop_drop, List.length_drop, List.length_append]
  congr 1
  omega

end Recent

/-- The rules for five samples, the newest last. The first that applies decides, and the numbers have no bounds. -/
def rules (threshold : Int) (workers : Nat) (a b c d e : LagSample) : Vote :=
  if e.partitions < workers then .scaleIn
  else if e.partitions = workers then .none
  else if a.lag < b.lag ∧ b.lag < c.lag ∧ c.lag < d.lag ∧ d.lag < e.lag then .scaleOut
  else if (a.lag > b.lag ∧ b.lag > c.lag ∧ c.lag > d.lag ∧ d.lag > e.lag) ∧ e.lag < e.partitions * threshold then
    .scaleIn
  else .none

/-- The rules for any number of samples. The last five count, and fewer make no vote. -/
def ruled (threshold : Int) (workers : Nat) (samples : List LagSample) : Vote :=
  match samples.rtake 5 with
  | [a, b, c, d, e] => rules threshold workers a b c d e
  | _ => .none

variable {s : TopicScaler} {workers : Nat} {samples : List LagSample}

theorem vote_recent (s : TopicScaler) (workers : Nat) (samples : List LagSample) :
    s.vote workers (recent window samples) = s.vote workers samples := by
  have hlength : (recent window samples).length < window ↔ samples.length < window := by
    rw [length_recent]
    omega
  rw [vote, vote, recent_recent]
  simp only [hlength]

theorem status_recent (s : TopicScaler) (workers : Nat) (samples : List LagSample) :
    s.status workers (recent window samples) = s.status workers samples := by
  rw [status, status, vote_recent]

theorem vote_few (h : samples.length < window) : s.vote workers samples = .none := if_pos h

theorem vote_five {a b c d e : LagSample} (hd : Word.Fits d.lag) (he : Word.Fits e.lag) :
    s.vote workers [a, b, c, d, e] = rules s.threshold workers a b c d e := by
  have hrising : trend (fun x y => x < y) [a.lag, b.lag, c.lag, d.lag, e.lag] = true ↔
      a.lag < b.lag ∧ b.lag < c.lag ∧ c.lag < d.lag ∧ d.lag < e.lag := by simp [trend]
  have hfalling : (trend (fun x y => y < x) [a.lag, b.lag, c.lag, d.lag, e.lag] &&
        e.lag < Word.mulClamped e.partitions s.threshold) = true ↔
      (a.lag > b.lag ∧ b.lag > c.lag ∧ c.lag > d.lag ∧ d.lag > e.lag) ∧ e.lag < e.partitions * s.threshold := by
    rw [Bool.and_eq_true, decide_eq_true_eq]
    refine Iff.trans (and_congr_left' (by simp [trend])) (and_congr_right fun hfall => ?_)
    -- The newest lag is below another word, so it is not the greatest.
    exact Word.lt_mulClamped he.1 (Int.lt_of_lt_of_le hfall.2.2.2 hd.2)
  have hvote : s.vote workers [a, b, c, d, e] =
      if e.partitions < workers then .scaleIn
      else if e.partitions = workers then .none
      else if trend (fun x y => x < y) [a.lag, b.lag, c.lag, d.lag, e.lag] then .scaleOut
      else if trend (fun x y => y < x) [a.lag, b.lag, c.lag, d.lag, e.lag] &&
        e.lag < Word.mulClamped e.partitions s.threshold then .scaleIn
      else .none := rfl
  simp only [hvote, hrising, hfalling, rules]

theorem exists_five {α : Type} {xs : List α} (h : xs.length = 5) : ∃ a b c d e, xs = [a, b, c, d, e] := by
  match xs, h with
  | [a, b, c, d, e], _ => exact ⟨a, b, c, d, e, rfl⟩

theorem ruled_few (threshold : Int) (h : samples.length < window) : ruled threshold workers samples = .none := by
  rw [ruled]
  split
  · next a b c d e hfive =>
      have hlength := congrArg List.length hfive
      rw [← recent_eq_rtake, length_recent] at hlength
      simp only [window, List.length_cons, List.length_nil] at h hlength
      omega
  · rfl

theorem vote_eq_ruled (hfits : ∀ x ∈ samples, Word.Fits x.lag) :
    s.vote workers samples = ruled s.threshold workers samples := by
  by_cases hfew : samples.length < window
  · rw [vote_few hfew, ruled_few s.threshold hfew]
  · have hlength : (recent window samples).length = 5 := by
      rw [length_recent]
      exact Nat.min_eq_right (Nat.le_of_not_lt hfew)
    obtain ⟨a, b, c, d, e, hfive⟩ := exists_five hlength
    have hfits' : ∀ x ∈ [a, b, c, d, e], Word.Fits x.lag := fun x hx =>
      hfits x ((recent_suffix window samples).subset (hfive ▸ hx))
    have hruled : ruled s.threshold workers samples = rules s.threshold workers a b c d e := by
      have hlast : samples.rtake 5 = [a, b, c, d, e] := hfive
      rw [ruled, hlast]
    rw [← vote_recent, hfive, hruled, vote_five (hfits' d (by simp)) (hfits' e (by simp))]

/-- The status is the vote of the rules, announced if it is one. Samples before the last five have no part in it. -/
theorem status_eq_ruled (s : TopicScaler) (workers : Nat) {samples : List LagSample}
    (hfits : ∀ x ∈ samples, Word.Fits x.lag) :
    let vote := ruled s.threshold workers samples
    s.status workers samples = (vote, if vote = .none then [] else [.voted s.topic s.group workers vote.label]) ∧
    ∀ others, others.rtake 5 = samples.rtake 5 → s.status workers others = s.status workers samples := by
  refine ⟨?_, fun others hlast => ?_⟩
  · rw [status, vote_eq_ruled hfits]
  · have hrecent : recent window others = recent window samples := hlast
    rw [← status_recent, hrecent, status_recent]

def falling : List LagSample :=
  [5, Word.greatest, Word.greatest - 1, Word.greatest - 2, Word.greatest - 3, Word.greatest - 4].map
    (⟨·, 3, ⟨0, 0⟩⟩)

theorem status_eq_ruled_falling :
    (∀ x ∈ falling, Word.Fits x.lag) ∧ ¬ Word.Fits (3 * Word.greatest) ∧
    (⟨"ev", "g", Word.greatest⟩ : TopicScaler).status 2 falling = (.scaleIn, [.voted "ev" "g" 2 "ScaleIn"]) := by
  have hfits : ∀ x ∈ falling, Word.Fits x.lag := by decide
  exact ⟨hfits, by decide, (status_eq_ruled ⟨"ev", "g", Word.greatest⟩ 2 hfits).1⟩

end TopicScaler

namespace ScaleMonitor

variable (m : ScaleMonitor) (xs : List LagSample)

def recordAll (m : ScaleMonitor) (xs : List LagSample) : ScaleMonitor := xs.foldl record m

theorem recordAll_concat (x : LagSample) : m.recordAll (xs ++ [x]) = (m.recordAll xs).record x := List.foldl_concat ..

theorem scaler_recordAll : (m.recordAll xs).scaler = m.scaler := by
  induction xs generalizing m with
  | nil => rfl
  | cons x xs ih => exact ih (m.record x)

variable {m} {xs}

theorem samples_recordAll (h : m.samples = []) :
    (m.recordAll xs).samples = TopicScaler.recent TopicScaler.window xs := by
  induction xs using List.reverseRecOn with
  | nil => exact h
  | append_singleton xs x ih =>
      rw [recordAll_concat]
      -- What one sample more pushes out of the window stands before the last five of the whole history, too.
      calc TopicScaler.recent TopicScaler.window ((m.recordAll xs).samples ++ [x])
          = TopicScaler.recent TopicScaler.window (TopicScaler.recent TopicScaler.window xs ++ [x]) := by rw [ih]
        _ = TopicScaler.recent TopicScaler.window (xs ++ [x]) := TopicScaler.recent_append ..

theorem status_recordAll (h : m.samples = []) (workers : Nat) :
    (m.recordAll xs).status workers = m.scaler.status workers xs := by
  rw [status, scaler_recordAll, samples_recordAll h, TopicScaler.status_recent]

/-- The window of a monitor holds the last five of all samples that were recorded, or all where there are fewer. The
status is that of the scaler on the whole history. -/
theorem window_refines_history (function group topic : String) (scaler : TopicScaler) (xs : List LagSample) :
    let m := (make function group scaler topic).recordAll xs
    m.samples <:+ xs ∧ m.samples.length = min xs.length 5 ∧
    ∀ workers, m.status workers = scaler.status workers xs := by
  have hsamples : ((make function group scaler topic).recordAll xs).samples =
      TopicScaler.recent TopicScaler.window xs := samples_recordAll rfl
  refine ⟨?_, ?_, status_recordAll rfl⟩
  · rw [hsamples]
    exact TopicScaler.recent_suffix ..
  · rw [hsamples]
    exact TopicScaler.length_recent ..

end ScaleMonitor

end StreamTrigger
