import StreamTrigger.Proofs.CommitSeries
import Mathlib.Algebra.Ring.Nat

namespace StreamTrigger

namespace WorkTask

def regression? : WorkTask → Option Position
  | regressed q _ => some q
  | _ => none

def counted (n : WorkTask) : Nat :=
  (n.measures.map (fun m => match m with
    | .count _ k => k
    | _ => 0)).sum

end WorkTask

/-- An advance under way: what it was called with, what of that is still to be checked, and what it will return. -/
structure AdvanceCall where
  submitted : List Position
  unchecked : List Position
  claimed : List Position := []
  notices : List WorkTask := []
deriving DecidableEq, Repr

structure Check where
  caller : Nat
  position : Position
  claim : Claim
deriving DecidableEq, Repr

namespace Check

def granted (k : Check) : Bool := k.claim = .advanced

def notice (k : Check) : WorkTask :=
  match k.claim with
  | .advanced => .advanced k.position
  | .regressed last => .regressed k.position last

theorem advance_eq (t : Tracker) (i : Nat) (q : Position) :
    (t.advance [q]).claimed = ([⟨i, q, (t.claim q).2⟩].filter granted).map position ∧
      (t.advance [q]).notices = [(⟨i, q, (t.claim q).2⟩ : Check).notice] := by
  rcases h : t.claim q with ⟨t', _ | last⟩ <;> simp [Tracker.advance, h, granted, notice]

end Check

namespace AdvanceCall

def new (ps : List Position) : AdvanceCall := { submitted := ps, unchecked := ps }

def after (c : AdvanceCall) (rest : List Position) (a : Advance) : AdvanceCall :=
  { c with unchecked := rest, claimed := c.claimed ++ a.claimed, notices := c.notices ++ a.notices }

def regressions (c : AdvanceCall) : List Position := c.notices.filterMap WorkTask.regression?

def counted (c : AdvanceCall) : Nat := (c.notices.map WorkTask.counted).sum

structure Accounts (c : AdvanceCall) (ks : List Check) : Prop where
  submitted : ks.map Check.position ++ c.unchecked = c.submitted
  claimed : c.claimed = (ks.filter Check.granted).map Check.position
  notices : c.notices = ks.map Check.notice

theorem accounts_new (ps : List Position) : (new ps).Accounts [] := ⟨rfl, rfl, rfl⟩

namespace Accounts

variable {c : AdvanceCall} {ks : List Check}

theorem after (h : c.Accounts ks) {q : Position} {rest : List Position} (hq : c.unchecked = q :: rest) (t : Tracker)
    (i : Nat) : (c.after rest (t.advance [q])).Accounts (ks ++ [⟨i, q, (t.claim q).2⟩]) := by
  obtain ⟨hclaimed, hnotices⟩ := Check.advance_eq t i q
  constructor
  · simp [AdvanceCall.after, ← h.submitted, hq]
  · rw [AdvanceCall.after, hclaimed, h.claimed, List.filter_append, List.map_append]
  · simp [AdvanceCall.after, hnotices, h.notices]

theorem regressions (h : c.Accounts ks) : c.regressions = (ks.filter (fun k => !k.granted)).map Check.position := by
  rw [AdvanceCall.regressions, h.notices]
  clear h
  induction ks with
  | nil => rfl
  | cons k ks ih =>
      obtain ⟨i, q, _ | last⟩ := k <;>
        simpa [Check.notice, Check.granted, WorkTask.regression?, List.filterMap_cons] using ih

theorem counted (h : c.Accounts ks) : c.counted = c.regressions.length := by
  rw [h.regressions, AdvanceCall.counted, h.notices]
  clear h
  induction ks with
  | nil => rfl
  | cons k ks ih =>
      obtain ⟨i, q, _ | last⟩ := k <;>
        simp_all [Check.notice, Check.granted, WorkTask.counted, WorkTask.measures, Nat.add_comm]

end Accounts

end AdvanceCall

/-- Callers that share a tracker, and the checks that were made for them. -/
structure AdvancePool where
  tracker : Tracker := {}
  calls : List AdvanceCall := []
  checks : List Check := []

/-- Someone calls for an advance, or one of the calls under way has its next position checked. -/
inductive AdvanceMove where
  | invoke (ps : List Position)
  | go (caller : Nat)
deriving DecidableEq, Repr

namespace AdvanceMove

def positions : AdvanceMove → List Position
  | invoke ps => ps
  | go _ => []

end AdvanceMove

theorem Tracker.committed_new {qs : List Position} (hwords : ∀ q ∈ qs, Word.Fits q.offset) (p : Partition) :
    (({} : Tracker).advance qs).tracker.committed? p = (p.offsets qs).max? := by
  have hmark : ({} : Tracker).mark p = Word.least := rfl
  rw [committed_advance, mark_eq_max, hmark, List.foldl_max]
  cases hmax : (p.offsets qs).max? with
  | none =>
      have hnone : p.offsets qs = [] := List.max?_eq_none_iff.mp hmax
      rw [if_neg]
      · rfl
      · rintro ⟨q, hq, rfl⟩
        exact List.ne_nil_of_mem (Partition.offset_mem_offsets hq) hnone
  | some m =>
      obtain ⟨q, hq, hp, hm⟩ := Partition.mem_offsets.mp (List.max?_mem hmax)
      have hword := (hwords q hq).1
      rw [if_pos ⟨q, hq, hp⟩, Option.getD_some, max_eq_right (hm ▸ hword)]

theorem Partition.max_perm {qs qs' : List Position} (h : qs.Perm qs') (p : Partition) :
    (p.offsets qs).max? = (p.offsets qs').max? := by
  have hperm : (p.offsets qs).Perm (p.offsets qs') := (h.filter _).map _
  cases hmax : (p.offsets qs).max? with
  | none =>
      rw [List.max?_eq_none_iff.mp hmax, List.nil_perm] at hperm
      rw [hperm, List.max?_nil]
  | some m =>
      obtain ⟨hmem, hle⟩ := List.max?_eq_some_iff.mp hmax
      exact (List.max?_eq_some_iff.mpr ⟨hperm.mem_iff.mp hmem, fun o ho => hle o (hperm.mem_iff.mpr ho)⟩).symm

namespace AdvancePool

def move (s : AdvancePool) : AdvanceMove → AdvancePool
  | .invoke ps => { s with calls := s.calls ++ [.new ps] }
  | .go i =>
      match s.calls[i]? with
      | none => s
      | some c =>
          match c.unchecked with
          | [] => s
          | q :: rest =>
              let a := s.tracker.advance [q]
              ⟨a.tracker, s.calls.set i (c.after rest a), s.checks ++ [⟨i, q, (s.tracker.claim q).2⟩]⟩

def run (s : AdvancePool) (ms : List AdvanceMove) : AdvancePool := ms.foldl move s

def checksOf (s : AdvancePool) (i : Nat) : List Check := s.checks.filter (fun k => k.caller = i)

def checked (s : AdvancePool) : List Position := s.checks.map Check.position

def granted (s : AdvancePool) : List Position := (s.checks.filter Check.granted).map Check.position

def submitted (s : AdvancePool) : List Position := s.calls.flatMap AdvanceCall.submitted

inductive Effect (s : AdvancePool) : AdvanceMove → AdvancePool → Prop
  | joins (ps : List Position) : Effect s (.invoke ps) { s with calls := s.calls ++ [.new ps] }
  | rests (i : Nat) : Effect s (.go i) s
  | checks (i : Nat) (c : AdvanceCall) (q : Position) (rest : List Position) : s.calls[i]? = some c →
      c.unchecked = q :: rest → Effect s (.go i) ⟨(s.tracker.advance [q]).tracker,
        s.calls.set i (c.after rest (s.tracker.advance [q])), s.checks ++ [⟨i, q, (s.tracker.claim q).2⟩]⟩

theorem move_effect (s : AdvancePool) (m : AdvanceMove) : Effect s m (s.move m) := by
  cases m with
  | invoke ps => exact .joins ps
  | go i =>
      rw [move]
      split
      · exact .rests i
      · next c hc =>
          split
          · exact .rests i
          · next q rest hq => exact .checks i c q rest hc hq

theorem run_alone_from (t : Tracker) (all ps cs : List Position) (ns : List WorkTask) (ks : List Check) :
    ∃ ks', run ⟨t, [⟨all, ps, cs, ns⟩], ks⟩ (List.replicate ps.length (.go 0)) =
      ⟨(t.advance ps).tracker, [⟨all, [], cs ++ (t.advance ps).claimed, ns ++ (t.advance ps).notices⟩], ks'⟩ := by
  induction ps generalizing t cs ns ks with
  | nil => exact ⟨ks, by simp [run, Tracker.advance]⟩
  | cons q ps ih =>
      obtain ⟨ks', h⟩ := ih (t.advance [q]).tracker (cs ++ (t.advance [q]).claimed) (ns ++ (t.advance [q]).notices)
        (ks ++ [⟨0, q, (t.claim q).2⟩])
      refine ⟨ks', ?_⟩
      rw [Tracker.advance_cons, ← List.append_assoc, ← List.append_assoc, ← h]
      rfl

/-- A caller whom nobody disturbs gets what the advance gives at once. -/
theorem run_alone (t : Tracker) (ps : List Position) :
    ∃ ks, run ⟨t, [.new ps], []⟩ (List.replicate ps.length (.go 0)) =
      ⟨(t.advance ps).tracker, [⟨ps, [], (t.advance ps).claimed, (t.advance ps).notices⟩], ks⟩ :=
  run_alone_from t ps ps [] [] []

theorem flatMap_after {f : AdvanceCall → List Position} {cs : List AdvanceCall} {i : Nat} {c d : AdvanceCall}
    (hc : cs[i]? = some c) (hf : f d = f c) : ((cs.set i d).flatMap f).Perm (cs.flatMap f) := by
  obtain ⟨rest, hold, hnew⟩ := CommitPool.flatMap_set f hc
  exact (hnew d).trans (hf ▸ hold.symm)

theorem submitted_move (s : AdvancePool) (m : AdvanceMove) : (s.move m).submitted.Perm (s.submitted ++ m.positions) := by
  have he := s.move_effect m
  generalize s.move m = s' at he
  cases he with
  | joins ps => exact .of_eq (by simp [submitted, AdvanceMove.positions, AdvanceCall.new])
  | rests i => exact .of_eq (by simp [AdvanceMove.positions])
  | checks i c q rest hc hq =>
      rw [AdvanceMove.positions, List.append_nil]
      exact flatMap_after hc rfl

theorem submitted_run (s : AdvancePool) (ms : List AdvanceMove) :
    (s.run ms).submitted.Perm (s.submitted ++ ms.flatMap AdvanceMove.positions) := by
  induction ms generalizing s with
  | nil => exact .of_eq (by simp [run])
  | cons m ms ih =>
      rw [List.flatMap_cons, ← List.append_assoc]
      exact (ih (s.move m)).trans ((s.submitted_move m).append_right _)

/-- The tracker does not tell callers apart: all that they do is one advance, of the positions in the order of the
checks. -/
structure Merged (t : Tracker) (s : AdvancePool) : Prop where
  tracker : s.tracker = (t.advance s.checked).tracker
  granted : s.granted = (t.advance s.checked).claimed
  accounts : ∀ i (c : AdvanceCall), s.calls[i]? = some c → c.Accounts (s.checksOf i)
  callers : ∀ k ∈ s.checks, k.caller < s.calls.length
  complete : (s.checked ++ s.calls.flatMap AdvanceCall.unchecked).Perm s.submitted

theorem merged_init (t : Tracker) : Merged t ⟨t, [], []⟩ :=
  ⟨rfl, rfl, by simp, by simp, .refl _⟩

namespace Merged

variable {t : Tracker} {s : AdvancePool}

theorem joins (h : Merged t s) (ps : List Position) : Merged t { s with calls := s.calls ++ [.new ps] } where
  tracker := h.tracker
  granted := h.granted
  accounts i c hc := by
    by_cases hi : i < s.calls.length
    · rw [List.getElem?_append_left hi] at hc
      exact h.accounts i c hc
    · -- Nothing is checked yet for a caller that is new.
      have hnone : s.checksOf i = [] := List.filter_eq_nil_iff.mpr (fun k hk => by
        have := h.callers k hk
        simp only [decide_eq_true_eq]
        omega)
      obtain rfl : AdvanceCall.new ps = c := by
        have hmem := List.mem_of_getElem? (List.getElem?_append_right (Nat.le_of_not_lt hi) ▸ hc)
        exact (List.mem_singleton.mp hmem).symm
      have heq : checksOf { s with calls := s.calls ++ [.new ps] } i = [] := hnone
      rw [heq]
      exact AdvanceCall.accounts_new ps
  callers k hk := by
    have := h.callers k hk
    simp only [List.length_append]
    omega
  complete := by simpa [submitted, checked, AdvanceCall.new] using h.complete.append_right ps

theorem checks (h : Merged t s) {i : Nat} {c : AdvanceCall} {q : Position} {rest : List Position}
    (hc : s.calls[i]? = some c) (hq : c.unchecked = q :: rest) :
    Merged t ⟨(s.tracker.advance [q]).tracker, s.calls.set i (c.after rest (s.tracker.advance [q])),
      s.checks ++ [⟨i, q, (s.tracker.claim q).2⟩]⟩ := by
  obtain ⟨hclaimed, hnotices⟩ := Check.advance_eq s.tracker i q
  -- One more check is one more position at the end of the advance that all checks make up.
  obtain ⟨hadvanced, htracker⟩ := t.advance_append s.checked [q]
  rw [← h.tracker] at hadvanced htracker
  constructor
  case tracker => simpa [checked] using htracker.symm
  case granted =>
    rw [hclaimed, ← h.granted] at hadvanced
    simpa [checked, AdvancePool.granted] using hadvanced.symm
  case accounts =>
    intro j d hd
    by_cases hj : i = j
    · subst hj
      obtain rfl : c.after rest (s.tracker.advance [q]) = d := by
        rw [List.getElem?_set_self (List.getElem?_eq_some_iff.mp hc).1] at hd
        exact Option.some.inj hd
      simpa [checksOf] using (h.accounts i c hc).after hq s.tracker i
    · rw [List.getElem?_set_ne hj] at hd
      simpa [checksOf, hj] using h.accounts j d hd
  case callers =>
    intro k hk
    rw [List.length_set]
    rcases List.mem_append.mp hk with hk | hk
    · exact h.callers k hk
    · obtain rfl := List.mem_singleton.mp hk
      exact (List.getElem?_eq_some_iff.mp hc).1
  case complete =>
    obtain ⟨others, hold, hnew⟩ := CommitPool.flatMap_set AdvanceCall.unchecked hc
    rw [hq] at hold
    have hsubmitted := flatMap_after (f := AdvanceCall.submitted) (d := c.after rest (s.tracker.advance [q])) hc rfl
    refine List.Perm.trans ?_ (h.complete.trans hsubmitted.symm)
    simpa [checked] using ((hnew (c.after rest _)).cons q).append_left s.checked |>.trans (hold.symm.append_left _)

theorem move (h : Merged t s) (m : AdvanceMove) : Merged t (s.move m) := by
  have he := s.move_effect m
  generalize s.move m = s' at he
  cases he with
  | joins ps => exact h.joins ps
  | rests i => exact h
  | checks i c q rest hc hq => exact h.checks hc hq

theorem run (h : Merged t s) (ms : List AdvanceMove) : Merged t (s.run ms) := by
  induction ms generalizing s with
  | nil => exact h
  | cons m ms ih => exact ih (h.move m)

theorem unnamed (h : Merged t s) {i : Nat} {c : AdvanceCall} (hc : s.calls[i]? = some c) {p : Partition}
    (hp : ∀ q ∈ c.submitted, q.partition ≠ p) : (s.move (.go i)).tracker.committed? p = s.tracker.committed? p := by
  have he := s.move_effect (.go i)
  generalize s.move (.go i) = s' at he
  cases he with
  | rests => rfl
  | checks _ c' q rest hc' hq =>
      obtain rfl : c = c' := Option.some.inj (hc.symm.trans hc')
      have hmem : q ∈ c.submitted := by
        rw [← (h.accounts i c hc).submitted, hq]
        simp
      rw [Tracker.committed_one, if_neg (hp q hmem)]

end Merged

/-- Whatever the order of the checks, the claims of a partition climb, each position of a call is returned by that call or
counted as a regression, once and in its turn, and the tracker stands at the highest offset that was submitted. -/
theorem advances_interleave (ms : List AdvanceMove) (hwords : ∀ ps, .invoke ps ∈ ms → ∀ q ∈ ps, Word.Fits q.offset) :
    let s := run {} ms
    (∀ p : Partition, (p.offsets s.granted).Pairwise (· < ·)) ∧
      (∀ i c, s.calls[i]? = some c →
        (s.checksOf i).map Check.position ++ c.unchecked = c.submitted ∧
        c.claimed = ((s.checksOf i).filter Check.granted).map Check.position ∧
        c.regressions = ((s.checksOf i).filter (fun k => !k.granted)).map Check.position ∧
        c.counted = c.regressions.length ∧
        ∀ p, (∀ q ∈ c.submitted, q.partition ≠ p) →
          (s.move (.go i)).tracker.committed? p = s.tracker.committed? p) ∧
      (∀ p : Partition, s.tracker.committed? p = (p.offsets s.checked).max?) ∧
      ((∀ c ∈ s.calls, c.unchecked = []) → ∀ p : Partition, s.tracker.committed? p = (p.offsets s.submitted).max?) := by
  intro s
  have h : Merged {} s := (merged_init {}).run ms
  have hchecked : ∀ q ∈ s.checked, Word.Fits q.offset := by
    intro q hq
    have hsubmitted : q ∈ s.submitted := h.complete.subset (List.mem_append_left _ hq)
    obtain ⟨m, hm, hqm⟩ := List.mem_flatMap.mp ((submitted_run {} ms).subset hsubmitted)
    cases m with
    | invoke ps => exact hwords ps hm q hqm
    | go i => cases hqm
  have hcommitted (p : Partition) : s.tracker.committed? p = (p.offsets s.checked).max? := by
    rw [h.tracker]
    exact Tracker.committed_new hchecked p
  refine ⟨fun p => ?_, fun i c hc => ?_, hcommitted, fun hdone p => ?_⟩
  · rw [h.granted, Tracker.offsets_claimed]
    exact maximaAbove_climbs _ _
  · have haccounts := h.accounts i c hc
    exact ⟨haccounts.submitted, haccounts.claimed, haccounts.regressions, haccounts.counted, fun _ => h.unnamed hc⟩
  · have hnone : s.calls.flatMap AdvanceCall.unchecked = [] := List.flatMap_eq_nil_iff.mpr hdone
    have hperm := h.complete
    rw [hnone, List.append_nil] at hperm
    rw [hcommitted, Partition.max_perm hperm]

def crossing : List AdvanceMove :=
  [.invoke [⟨⟨"events", 0⟩, 5⟩, ⟨⟨"events", 0⟩, 9⟩],
    .invoke [⟨⟨"events", 0⟩, 7⟩, ⟨⟨"events", 0⟩, 5⟩, ⟨⟨"events", 1⟩, Word.least⟩], .go 0, .go 1, .go 1, .go 0, .go 1]

theorem advances_interleave_crossing :
    (∀ ps, .invoke ps ∈ crossing → ∀ q ∈ ps, Word.Fits q.offset) ∧
      (⟨"events", 0⟩ : Partition).offsets (run {} crossing).granted = [5, 7, 9] ∧
      (run {} crossing).calls.map AdvanceCall.regressions = [[], [⟨⟨"events", 0⟩, 5⟩, ⟨⟨"events", 1⟩, Word.least⟩]] ∧
      (run {} crossing).tracker.committed? ⟨"events", 0⟩ = some 9 ∧
      (run {} crossing).tracker.committed? ⟨"events", 1⟩ = some Word.least := by
  have hwords : ∀ ps, .invoke ps ∈ crossing → ∀ q ∈ ps, Word.Fits q.offset := by
    intro ps hps
    simp only [crossing, List.mem_cons, AdvanceMove.invoke.injEq, List.not_mem_nil, or_false, reduceCtorEq] at hps
    rcases hps with rfl | rfl <;> decide
  obtain ⟨-, -, -, hdone⟩ := advances_interleave crossing hwords
  exact ⟨hwords, by decide, by decide, hdone (by decide) _, hdone (by decide) _⟩

end AdvancePool

end StreamTrigger
