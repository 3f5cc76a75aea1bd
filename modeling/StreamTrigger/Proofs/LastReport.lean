import StreamTrigger.Consumer.Context
import Mathlib.Data.List.DropRight
import Mathlib.Data.List.Induction

namespace StreamTrigger

namespace PartitionStatistics

variable {s : PartitionStatistics} {p : Partition}

def speaksOf (s : PartitionStatistics) (p : Partition) : Bool := 0 ≤ s.partition.number ∧ s.partition = p

theorem speaksOf_iff : s.speaksOf p = true ↔ 0 ≤ s.partition.number ∧ s.partition = p := decide_eq_true_iff

end PartitionStatistics

namespace ConsumerContext

/-- All that a context hears of watermarks: an event of the client, or a record from elsewhere. -/
inductive Change where
  | event (e : ConsumerEvent)
  | recorded (p : Partition) (w : Watermarks)
deriving DecidableEq, Repr

def change (c : ConsumerContext) : Change → ConsumerContext
  | .event e => (c.handle e).1
  | .recorded p w => c.record p w

def replay (c : ConsumerContext) (xs : List Change) : ConsumerContext := xs.foldl change c

namespace Change

/-- What is reported of a partition. In statistics that is its row, or the last one if there were several. -/
def report? (p : Partition) : Change → Option Watermarks
  | .event (.statistics rows) =>
      (rows.filter (fun s => s.speaksOf p)).getLast?.map (fun s => .ofRaw s.low s.high)
  | .event _ => none
  | .recorded q w => if q = p then some w else none

def revokes (p : Partition) : Change → Bool
  | .event (.revoking ps) => p ∈ ps
  | _ => false

def clears (p : Partition) (x : Change) : Bool := x.revokes p || (x.report? p).any Watermarks.isUnset

def since (p : Partition) (xs : List Change) : List Change := xs.rtakeWhile (fun x => !x.clears p)

def lastReport? (p : Partition) (xs : List Change) : Option Watermarks := ((since p xs).filterMap (report? p)).getLast?

/-- All that a change says of one partition, one entry after another. -/
def about (p : Partition) : Change → List Change
  | .event (.statistics rows) => (rows.filter (fun s => s.partition = p)).map (fun s => .event (.statistics [s]))
  | .event (.revoking ps) => (ps.filter (fun q => q = p)).map (fun q => .event (.revoking [q]))
  | .event _ => []
  | .recorded q w => if q = p then [.recorded q w] else []

def numbered : Change → Change
  | .event (.statistics rows) => .event (.statistics (rows.filter (fun s => 0 ≤ s.partition.number)))
  | x => x

/-- The same change, with the rows of statistics in another order. Each partition has one row. -/
inductive Reordered : Change → Change → Prop
  | same (x : Change) : Reordered x x
  | rows {ss ts : List PartitionStatistics} (hone : (ss.map PartitionStatistics.partition).Nodup) (h : ss.Perm ts) :
      Reordered (.event (.statistics ss)) (.event (.statistics ts))

section LastReport

variable {p : Partition} {w : Watermarks} {x : Change} {xs : List Change}

theorem since_concat : since p (xs ++ [x]) = if x.clears p then [] else since p xs ++ [x] := by
  rw [since, List.rtakeWhile_concat]
  cases x.clears p <;> rfl

theorem lastReport?_concat :
    lastReport? p (xs ++ [x]) = if x.clears p then none else (x.report? p).or (lastReport? p xs) := by
  rw [lastReport?, since_concat]
  split
  · rfl
  · rw [List.filterMap_append, List.getLast?_append]
    cases h : x.report? p <;> simp [h, lastReport?]

theorem exists_of_lastReport? (h : lastReport? p xs = some w) :
    w.isUnset = false ∧ ∃ x ∈ since p xs, x.report? p = some w := by
  obtain ⟨x, hx, hreport⟩ := List.mem_filterMap.mp (List.mem_of_getLast? h)
  -- The report stands behind the last clearing, so it did not clear the partition itself.
  have hclears : x.clears p = false := by simpa using List.mem_rtakeWhile_imp (p := fun x => !clears p x) hx
  rw [clears, hreport, Bool.or_eq_false_iff] at hclears
  exact ⟨hclears.2, x, hx, hreport⟩

theorem eq_recorded_of_negative (hp : p.number < 0) (h : x.report? p = some w) : x = .recorded p w := by
  cases x with
  | recorded q w' =>
      obtain ⟨rfl, rfl⟩ : q = p ∧ w' = w := by simpa [report?] using h
      rfl
  | event e =>
      cases e with
      | statistics rows =>
          have hnone : rows.filter (fun s => s.speaksOf p) = [] := by
            rw [List.filter_eq_nil_iff]
            rintro s - hs
            obtain ⟨hnumber, rfl⟩ := PartitionStatistics.speaksOf_iff.mp hs
            omega
          rw [report?, hnone] at h
          cases h
      | _ => cases h

end LastReport

section Rows

variable (p : Partition) (rows : List PartitionStatistics)

theorem report?_concat (s : PartitionStatistics) : report? p (.event (.statistics (rows ++ [s]))) =
    if s.speaksOf p then some (.ofRaw s.low s.high) else report? p (.event (.statistics rows)) := by
  rw [report?, List.filter_append, List.getLast?_append, List.filter_singleton]
  cases s.speaksOf p <;> rfl

theorem report?_filter :
    report? p (.event (.statistics (rows.filter (fun s => s.partition = p)))) = report? p (.event (.statistics rows)) := by
  simp [report?, List.filter_filter, PartitionStatistics.speaksOf]

end Rows

section Reordered

variable {x y : Change}

theorem Reordered.report?_eq (h : Reordered x y) (p : Partition) : y.report? p = x.report? p := by
  cases h with
  | same => rfl
  | @rows ss ts hone hperm =>
      have hone' : (ts.map PartitionStatistics.partition).Nodup := (hperm.map _).nodup_iff.mp hone
      -- No two rows speak of the partition, so the order of those that do is no choice.
      have hsame : ss.filter (fun s => s.speaksOf p) = ts.filter (fun s => s.speaksOf p) := by
        refine (hperm.filter _).eq_of_pairwise (fun s t hs ht hne => ?_)
          ((List.pairwise_map.mp hone).filter _) ((List.pairwise_map.mp hone').filter _)
        have hs' : s.partition = p := (PartitionStatistics.speaksOf_iff.mp (List.mem_filter.mp hs).2).2
        have ht' : t.partition = p := (PartitionStatistics.speaksOf_iff.mp (List.mem_filter.mp ht).2).2
        exact absurd (hs'.trans ht'.symm) hne
      simp only [report?, hsame]

theorem Reordered.revokes_eq (h : Reordered x y) (p : Partition) : y.revokes p = x.revokes p := by
  cases h <;> rfl

end Reordered

end Change

open Change

variable (c : ConsumerContext) (p : Partition)

def kept? (w : Watermarks) : Option Watermarks := if w.isUnset then none else some w

theorem get?_record (q : Partition) (w : Watermarks) :
    (c.record q w).watermarks.get? p = if q = p then kept? w else c.watermarks.get? p := by
  rw [record, kept?]
  cases w.isUnset <;> simp

theorem get?_forget (ps : List Partition) :
    (c.forget ps).watermarks.get? p = if p ∈ ps then none else c.watermarks.get? p := by
  induction ps using List.reverseRecOn with
  | nil => rfl
  | append_singleton ps q ih =>
      have herase : c.forget (ps ++ [q]) = ⟨(c.forget ps).watermarks.erase q⟩ := by simp [forget]
      rw [herase, Table.get?_erase, ih]
      by_cases hq : q = p
      · simp [hq]
      · simp [hq, Ne.symm hq]

theorem change_revoking (ps : List Partition) : c.change (.event (.revoking ps)) = c.forget ps := by
  cases ps <;> rfl

theorem replay_revoking_each (ps : List Partition) :
    c.replay (ps.map (fun q => .event (.revoking [q]))) = c.forget ps := by
  rw [replay, List.foldl_map]
  exact List.foldl_hom ConsumerContext.mk (fun _ _ => rfl)

theorem get?_learn (s : PartitionStatistics) : (c.learn s).watermarks.get? p =
    if s.speaksOf p then kept? (.ofRaw s.low s.high) else c.watermarks.get? p := by
  rw [learn]
  by_cases hs : s.partition.number < 0
  · simp [hs, PartitionStatistics.speaksOf, Int.not_le.mpr hs]
  · simp [hs, PartitionStatistics.speaksOf, Int.not_lt.mp hs, get?_record]

theorem get?_learn_all (rows : List PartitionStatistics) : (rows.foldl learn c).watermarks.get? p =
    (report? p (.event (.statistics rows))).elim (c.watermarks.get? p) kept? := by
  induction rows using List.reverseRecOn with
  | nil => rfl
  | append_singleton rows s ih =>
      rw [List.foldl_concat, get?_learn, ih, report?_concat]
      split <;> rfl

theorem get?_change (x : Change) : (c.change x).watermarks.get? p =
    if x.clears p then none else (x.report? p).or (c.watermarks.get? p) := by
  cases x with
  | recorded q w =>
      rw [change, get?_record, kept?]
      by_cases hq : q = p <;> simp [clears, revokes, report?, hq]
  | event e =>
      cases e with
      | statistics rows =>
          rw [change, handle, get?_learn_all]
          cases h : report? p (.event (.statistics rows)) <;> simp [clears, revokes, kept?, h]
      | revoking ps =>
          rw [change_revoking, get?_forget]
          simp [clears, revokes, report?]
      | commitFailed e ps =>
          cases e with
          | consumerCommit code => cases code <;> rfl
          | _ => rfl
      | assigned ps => cases ps <;> rfl
      | _ => rfl

theorem replay_append (xs ys : List Change) : c.replay (xs ++ ys) = (c.replay xs).replay ys := List.foldl_append

theorem get?_replay (xs : List Change) : (replay {} xs).watermarks.get? p = lastReport? p xs := by
  induction xs using List.reverseRecOn with
  | nil => rfl
  | append_singleton xs x ih => rw [replay, List.foldl_concat, get?_change, lastReport?_concat, ← ih, replay]

theorem change_numbered (x : Change) : c.change x.numbered = c.change x := by
  cases x with
  | recorded q w => rfl
  | event e =>
      cases e with
      | statistics rows =>
          have hlearn (d : ConsumerContext) (s : PartitionStatistics) :
              (if decide (0 ≤ s.partition.number) then d.learn s else d) = d.learn s := by
            by_cases hs : s.partition.number < 0 <;> simp [learn, hs]
          simp only [numbered, change, handle, List.foldl_filter, hlearn]
      | _ => rfl

theorem replay_numbered (xs : List Change) : c.replay (xs.map numbered) = c.replay xs := by
  rw [replay, List.foldl_map]
  simp only [change_numbered]
  rfl

section SameState

-- Two contexts that know the same of one partition may differ in all others.
variable {c p} {c' : ConsumerContext} {xs ys : List Change}

theorem get?_replay_about_change (h : c'.watermarks.get? p = c.watermarks.get? p) (x : Change) :
    (c'.replay (x.about p)).watermarks.get? p = (c.change x).watermarks.get? p := by
  cases x with
  | recorded q w =>
      by_cases hq : q = p
      · simp [about, hq, replay, change, get?_record]
      · simp [about, hq, replay, change, get?_record, h]
  | event e =>
      cases e with
      | statistics rows =>
          have hlearn : c'.replay (about p (.event (.statistics rows))) =
              (rows.filter (fun s => s.partition = p)).foldl learn c' := List.foldl_map
          rw [hlearn, change, handle, get?_learn_all, get?_learn_all, report?_filter, h]
      | revoking ps =>
          rw [about, replay_revoking_each, change_revoking, get?_forget, get?_forget, h]
          simp
      | _ => rw [get?_change]; exact h

theorem get?_replay_about (h : c'.watermarks.get? p = c.watermarks.get? p) :
    (c'.replay (xs.flatMap (about p))).watermarks.get? p = (c.replay xs).watermarks.get? p := by
  induction xs generalizing c c' with
  | nil => exact h
  | cons x xs ih =>
      rw [List.flatMap_cons, replay_append]
      exact ih (get?_replay_about_change h x)

theorem get?_replay_reordered (hxy : List.Forall₂ Reordered xs ys) (h : c'.watermarks.get? p = c.watermarks.get? p) :
    (c'.replay ys).watermarks.get? p = (c.replay xs).watermarks.get? p := by
  induction hxy generalizing c c' with
  | nil => exact h
  | cons hxy _ ih =>
      refine ih ?_
      rw [get?_change, get?_change, clears, clears, hxy.report?_eq, hxy.revokes_eq, h]

end SameState

/-- Of each partition a context knows the last watermarks reported since it was revoked, or since a report knew neither of
them, and nothing if there are none. It keeps nothing of which nothing is known. Of a negative number it knows only what was
recorded from elsewhere, and all is as if statistics had no rows of such numbers. What is said of other partitions, be it
in one breath with this one, might as well not be said; and it does not matter how the rows of statistics are ordered. -/
theorem knows_last_report (xs : List Change) :
    let c := replay {} xs
    (∀ p, c.cached p = (lastReport? p xs).getD .unset) ∧
    (∀ p w, (p, w) ∈ c.watermarks.entries → w.isUnset = false) ∧
    (∀ p w, (p, w) ∈ c.watermarks.entries → p.number < 0 → .recorded p w ∈ since p xs) ∧
    replay {} (xs.map numbered) = c ∧
    (∀ p, (replay {} (xs.flatMap (about p))).cached p = c.cached p) ∧
    ∀ ys, List.Forall₂ Reordered xs ys → ∀ p, (replay {} ys).cached p = c.cached p := by
  have hkept (p : Partition) (w : Watermarks) (h : (p, w) ∈ (replay {} xs).watermarks.entries) :
      w.isUnset = false ∧ ∃ x ∈ since p xs, x.report? p = some w := by
    rw [Table.mem_entries, get?_replay] at h
    exact exists_of_lastReport? h
  refine ⟨?_, ?_, ?_, replay_numbered {} xs, ?_, ?_⟩
  · intro p
    rw [cached, get?_replay]
  · intro p w h
    exact (hkept p w h).1
  · intro p w h hp
    obtain ⟨-, x, hx, hreport⟩ := hkept p w h
    exact eq_recorded_of_negative hp hreport ▸ hx
  · intro p
    rw [cached, cached, get?_replay_about rfl]
  · intro ys h p
    rw [cached, cached, get?_replay_reordered h rfl]

def hearing : List Change :=
  [.event (.statistics [⟨⟨"ev", 0⟩, 3, 40⟩, ⟨⟨"ev", 1⟩, 0, 20⟩, ⟨⟨"ev", 2⟩, 0, 30⟩]),
    .event (.revoking [⟨"ev", 1⟩]), .recorded ⟨"ev", 2⟩ .unset,
    .event (.statistics [⟨⟨"ev", -1⟩, 5, 5⟩, ⟨⟨"ev", 0⟩, -1001, 41⟩, ⟨⟨"ev", 2⟩, -1001, -1001⟩])]

def hearingReordered : List Change :=
  [.event (.statistics [⟨⟨"ev", 2⟩, 0, 30⟩, ⟨⟨"ev", 1⟩, 0, 20⟩, ⟨⟨"ev", 0⟩, 3, 40⟩]),
    .event (.revoking [⟨"ev", 1⟩]), .recorded ⟨"ev", 2⟩ .unset,
    .event (.statistics [⟨⟨"ev", 0⟩, -1001, 41⟩, ⟨⟨"ev", 2⟩, -1001, -1001⟩, ⟨⟨"ev", -1⟩, 5, 5⟩])]

theorem knows_last_report_in_part : List.Forall₂ Reordered hearing hearingReordered ∧
    [0, 1, 2, -1].map (fun n => (replay {} hearingReordered).cached ⟨"ev", n⟩) =
      [⟨none, some 41⟩, .unset, .unset, .unset] := by
  have horder : List.Forall₂ Reordered hearing hearingReordered :=
    .cons (.rows (by decide) (by decide)) (.cons (.same _) (.cons (.same _) (.cons (.rows (by decide) (by decide)) .nil)))
  obtain ⟨hknown, -, -, -, -, hrows⟩ := knows_last_report hearing
  refine ⟨horder, ?_⟩
  simp only [hrows hearingReordered horder, hknown]
  decide

end ConsumerContext

end StreamTrigger
