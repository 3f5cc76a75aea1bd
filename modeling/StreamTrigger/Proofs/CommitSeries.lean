import StreamTrigger.Proofs.CommitCalls
import Mathlib.Data.List.Flatten
import Mathlib.Data.List.Induction

namespace StreamTrigger

/-- A call by which positions reach the broker: one is stored, or all are committed. -/
inductive Handover where
  | one (q : Position)
  | all (qs : List Position)
deriving DecidableEq, Repr

namespace Handover

def positions : Handover → List Position
  | one q => [q]
  | all qs => qs

def committed? : Handover → Option (List Position)
  | one _ => none
  | all qs => some qs

end Handover

structure Submission where
  call : Handover
  accepted : Bool
deriving DecidableEq, Repr

/-- A broker that keeps a ledger of the positions it was given. -/
structure Ledger (β : Type) where
  broker : β
  entries : List Submission := []

namespace Ledger

variable {β : Type}

def calls (l : Ledger β) : List Handover := l.entries.map Submission.call

/-- The positions that the broker was given, and those of them that it accepted, in their order. -/
def handed (l : Ledger β) : List Position := l.entries.flatMap (fun e => e.call.positions)

def accepted (l : Ledger β) : List Position := (l.entries.filter Submission.accepted).flatMap (fun e => e.call.positions)

def commits (l : Ledger β) : List (List Position) := l.calls.filterMap Handover.committed?

def enter (l : Ledger β) (c : Handover) (x : β × Except BrokerError Unit) : Ledger β × Except BrokerError Unit :=
  (⟨x.1, l.entries ++ [⟨c, x.2.isOk⟩]⟩, x.2)

def pass {α : Type} (l : Ledger β) (x : β × α) : Ledger β × α := (⟨x.1, l.entries⟩, x.2)

instance [Broker β] : Broker (Ledger β) where
  poll l wait := l.pass (Broker.poll l.broker wait)
  commit l qs := l.enter (.all qs) (Broker.commit l.broker qs)
  store l q := l.enter (.one q) (Broker.store l.broker q)
  pause l ps := l.pass (Broker.pause l.broker ps)
  resume l ps := l.pass (Broker.resume l.broker ps)
  assignment l := l.pass (Broker.assignment l.broker)
  committed l ps wait := l.pass (Broker.committed l.broker ps wait)
  cachedWatermarks l p := l.pass (Broker.cachedWatermarks l.broker p)
  queryWatermarks l p wait := l.pass (Broker.queryWatermarks l.broker p wait)
  partitions l topic wait := l.pass (Broker.partitions l.broker topic wait)
  close l := ⟨Broker.close l.broker, l.entries⟩

theorem handed_eq (l : Ledger β) : l.handed = l.calls.flatMap Handover.positions := by
  rw [handed, calls, List.flatMap_map]

theorem accepted_sublist (l : Ledger β) : l.accepted.Sublist l.handed := by
  rw [accepted, handed, List.flatMap_def, List.flatMap_def]
  exact (List.filter_sublist.map _).flatten

theorem accepted_eq {l : Ledger β} (h : ∀ e ∈ l.entries, e.accepted) : l.accepted = l.handed := by
  rw [accepted, List.filter_eq_self.mpr h, handed]

@[simp] theorem calls_enter (l : Ledger β) (c : Handover) (x : β × Except BrokerError Unit) :
    (l.enter c x).1.calls = l.calls ++ [c] := by
  simp [enter, calls]

end Ledger

/-- The offsets that lie above a floor and above all offsets before them. -/
def maximaAbove (floor : Int) (os : List Int) : List Int :=
  (os.zipIdx.filter (fun x => floor < x.1 ∧ ∀ o ∈ os.take x.2, o < x.1)).map Prod.fst

section Maxima

variable (floor o : Int) (os : List Int)

theorem maximaAbove_nil : maximaAbove floor [] = [] := rfl

theorem maximaAbove_concat :
    maximaAbove floor (os ++ [o]) = maximaAbove floor os ++ if floor < o ∧ ∀ x ∈ os, x < o then [o] else [] := by
  have hold : os.zipIdx.filter (fun x => floor < x.1 ∧ ∀ y ∈ (os ++ [o]).take x.2, y < x.1) =
      os.zipIdx.filter (fun x => floor < x.1 ∧ ∀ y ∈ os.take x.2, y < x.1) := by
    refine List.filter_congr (fun x hx => ?_)
    have hlt : x.2 < os.length := by simpa using (List.mem_zipIdx hx).2.1
    rw [List.take_append_of_le_length (Nat.le_of_lt hlt)]
  rw [maximaAbove, List.zipIdx_append, List.filter_append, hold, List.map_append]
  congr 1
  simp only [List.zipIdx_singleton, List.filter_cons, List.filter_nil, Nat.zero_add, List.take_left, decide_eq_true_eq]
  split <;> rfl

theorem maximaAbove_cons :
    maximaAbove floor (o :: os) = if floor < o then o :: maximaAbove o os else maximaAbove floor os := by
  induction os using List.reverseRecOn with
  | nil => by_cases h : floor < o <;> simpa [h, maximaAbove_nil] using maximaAbove_concat floor o []
  | append_singleton os x ih =>
      rw [← List.cons_append, maximaAbove_concat, maximaAbove_concat, maximaAbove_concat, ih]
      by_cases h : floor < o
      · have hiff : (floor < x ∧ ∀ y ∈ o :: os, y < x) ↔ (o < x ∧ ∀ y ∈ os, y < x) := by
          simp only [List.forall_mem_cons]
          exact ⟨And.right, fun hx => ⟨Int.lt_trans h hx.1, hx⟩⟩
        simp only [h, hiff, if_true, List.cons_append]
      · have hiff : (floor < x ∧ ∀ y ∈ o :: os, y < x) ↔ (floor < x ∧ ∀ y ∈ os, y < x) := by
          simp only [List.forall_mem_cons]
          exact ⟨fun hx => ⟨hx.1, hx.2.2⟩, fun hx => ⟨hx.1, Int.lt_of_le_of_lt (Int.not_lt.mp h) hx.1, hx.2⟩⟩
        simp only [h, hiff, if_false]

variable {floor o os}

theorem lt_of_mem_maximaAbove (h : o ∈ maximaAbove floor os) : floor < o := by
  obtain ⟨x, hx, rfl⟩ := List.mem_map.mp h
  have := (List.mem_filter.mp hx).2
  simp only [decide_eq_true_eq] at this
  exact this.1

theorem maximaAbove_climbs (floor : Int) (os : List Int) : (maximaAbove floor os).Pairwise (· < ·) := by
  induction os generalizing floor with
  | nil => exact .nil
  | cons o os ih =>
      rw [maximaAbove_cons]
      split
      · exact List.pairwise_cons.mpr ⟨fun _ => lt_of_mem_maximaAbove, ih o⟩
      · exact ih floor

theorem last_of_climbing {os : List Int} (h : os.Pairwise (· < ·)) (d : Int) {o : Int} (ho : o ∈ os) :
    os.getLastD d ∈ os ∧ ∀ x ∈ os, x ≤ os.getLastD d := by
  rcases List.eq_nil_or_concat os with rfl | ⟨xs, z, rfl⟩
  · simp at ho
  · rw [List.concat_eq_append] at h ⊢
    have hlast := (List.pairwise_append.mp h).2.2
    simp only [List.getLastD_concat]
    refine ⟨by simp, fun x hx => ?_⟩
    rcases List.mem_append.mp hx with hx | hx
    · exact Int.le_of_lt (hlast x hx z (List.mem_singleton_self z))
    · exact Int.le_of_eq (List.mem_singleton.mp hx)

theorem foldl_max_le {floor m : Int} {os : List Int} : os.foldl max floor ≤ m ↔ floor ≤ m ∧ ∀ o ∈ os, o ≤ m := by
  induction os generalizing floor with
  | nil => simp
  | cons o os ih => simp [ih, and_assoc]

theorem last_maximaAbove (floor : Int) (os : List Int) :
    (maximaAbove floor os).getLast? = if floor < os.foldl max floor then some (os.foldl max floor) else none := by
  induction os generalizing floor with
  | nil => simp [maximaAbove_nil]
  | cons o os ih =>
      rw [maximaAbove_cons, List.foldl_cons]
      by_cases ho : floor < o
      · have hle : o ≤ os.foldl max o := (foldl_max_le.mp (Int.le_refl _)).1
        rw [if_pos ho, List.getLast?_cons, ih, max_eq_right (Int.le_of_lt ho), if_pos (Int.lt_of_lt_of_le ho hle)]
        split
        · rfl
        · rw [Option.getD_none, Option.some.injEq]
          omega
      · rw [if_neg ho, ih, max_eq_left (Int.not_lt.mp ho)]

end Maxima

theorem Partition.offset_mem_offsets {q : Position} {qs : List Position} (h : q ∈ qs) :
    q.offset ∈ q.partition.offsets qs :=
  List.mem_map_of_mem (List.mem_filter.mpr ⟨h, decide_eq_true rfl⟩)

namespace Tracker

theorem advance_append (t : Tracker) (ps qs : List Position) :
    (t.advance (ps ++ qs)).claimed = (t.advance ps).claimed ++ ((t.advance ps).tracker.advance qs).claimed ∧
      (t.advance (ps ++ qs)).tracker = ((t.advance ps).tracker.advance qs).tracker := by
  induction ps generalizing t with
  | nil => exact ⟨rfl, rfl⟩
  | cons p ps ih =>
      rw [List.cons_append, advance_cons t p (ps ++ qs), advance_cons t p ps]
      obtain ⟨hc, ht⟩ := ih (t.advance [p]).tracker
      exact ⟨by simp [hc], ht⟩

/-- The tracker grants the positions that exceed its mark and all that were submitted before them. -/
theorem offsets_claimed (t : Tracker) (ps : List Position) (p : Partition) :
    p.offsets (t.advance ps).claimed = maximaAbove (t.mark p) (p.offsets ps) := by
  induction ps generalizing t with
  | nil => rfl
  | cons q ps ih =>
      have hsplit : p.offsets (q :: ps) = p.offsets [q] ++ p.offsets ps := Partition.offsets_append p [q] ps
      rw [advance_cons, hsplit, Partition.offsets_append, ih, Partition.offsets_singleton]
      by_cases hp : q.partition = p
      · subst hp
        rw [if_pos rfl, List.singleton_append, maximaAbove_cons]
        rcases t.advance_one q with ⟨hc, hle, hm⟩ | ⟨hc, hlt, hm⟩
        · rw [hc, hm, if_neg (Int.not_lt.mpr hle)]
          rfl
        · rw [hc, hm, if_pos rfl, if_pos hlt, Partition.offsets_singleton, if_pos rfl]
          rfl
      · rw [if_neg hp, List.nil_append]
        rcases t.advance_one q with ⟨hc, -, hm⟩ | ⟨hc, -, hm⟩
        · rw [hc, hm]
          rfl
        · rw [hc, hm, if_neg hp, Partition.offsets_singleton, if_neg hp]
          rfl

theorem mark_advance (t : Tracker) (ps : List Position) (p : Partition) :
    (t.advance ps).tracker.mark p = (p.offsets (t.advance ps).claimed).getLastD (t.mark p) := by
  induction ps generalizing t with
  | nil => rfl
  | cons q ps ih =>
      rw [advance_cons, Partition.offsets_append, ih]
      rcases t.advance_one q with ⟨hc, -, hm⟩ | ⟨hc, -, hm⟩
      · rw [hc, hm]
        rfl
      · rw [hc, hm, Partition.offsets_singleton]
        by_cases hp : q.partition = p
        · rw [if_pos hp, if_pos hp, List.singleton_append, List.getLastD_cons]
        · rw [if_neg hp, if_neg hp, List.nil_append]

theorem mark_eq_max (t : Tracker) (ps : List Position) (p : Partition) :
    (t.advance ps).tracker.mark p = (p.offsets ps).foldl max (t.mark p) := by
  have hle : t.mark p ≤ (p.offsets ps).foldl max (t.mark p) := (foldl_max_le.mp (Int.le_refl _)).1
  rw [mark_advance, offsets_claimed, List.getLastD_eq_getLast?, last_maximaAbove]
  split
  · rfl
  · rw [Option.getD_none]
    omega

theorem mem_of_claimed {t : Tracker} {q : Position} {qs : List Position} (h : q ∈ (t.advance qs).claimed) : q ∈ qs := by
  induction qs generalizing t with
  | nil => exact h
  | cons x qs ih =>
      rw [advance_cons, List.mem_append] at h
      rcases h with h | h
      · rcases t.advance_one x with ⟨hc, -⟩ | ⟨hc, -⟩ <;> simp_all
      · exact List.mem_cons_of_mem x (ih h)

theorem committed_one (t : Tracker) (q : Position) (p : Partition) :
    (t.advance [q]).tracker.committed? p = if q.partition = p then some ((t.advance [q]).tracker.mark p) else t.committed? p := by
  by_cases hlt : t.mark q.partition < q.offset
  · have hc : t.claim q = (⟨t.last.insert q.partition q.offset⟩, .advanced) := if_pos hlt
    by_cases hp : q.partition = p <;> simp [advance, hc, mark, committed?, hp]
  · have hc : t.claim q = (⟨t.last.insert q.partition (t.mark q.partition)⟩, .regressed (t.mark q.partition)) := if_neg hlt
    by_cases hp : q.partition = p <;> simp [advance, hc, mark, committed?, hp]

theorem committed_advance (t : Tracker) (qs : List Position) (p : Partition) : (t.advance qs).tracker.committed? p =
    if ∃ q ∈ qs, q.partition = p then some ((t.advance qs).tracker.mark p) else t.committed? p := by
  induction qs generalizing t with
  | nil => simp [advance]
  | cons q qs ih =>
      rw [advance_cons, ih, committed_one]
      by_cases hqs : ∃ q ∈ qs, q.partition = p
      · rw [if_pos hqs, if_pos (hqs.imp fun _ h => ⟨List.mem_cons_of_mem _ h.1, h.2⟩)]
      · have hmark : ((t.advance [q]).tracker.advance qs).tracker.mark p = (t.advance [q]).tracker.mark p := by
          rw [mark, ih, if_neg hqs, mark]
        by_cases hq : q.partition = p <;> simp [hq, hqs, hmark]

def claims (t : Tracker) : List (List Position) → List (List Position)
  | [] => []
  | ps :: pss => (t.advance ps).claimed :: (t.advance ps).tracker.claims pss

theorem claims_flatten (t : Tracker) (pss : List (List Position)) :
    (t.claims pss).flatten = (t.advance pss.flatten).claimed := by
  induction pss generalizing t with
  | nil => rfl
  | cons ps pss ih => rw [claims, List.flatten_cons, List.flatten_cons, (t.advance_append ps _).1, ih]

end Tracker

namespace CommitMode

variable {β : Type} [Broker β]

def series (mode : CommitMode) (t : Tracker) (b : β) : List (List Position) → Committed β
  | [] => ⟨t, b, []⟩
  | ps :: pss =>
      let r := mode.commit t b ps
      let r' := mode.series r.tracker r.broker pss
      ⟨r'.tracker, r'.broker, r.events ++ r'.events⟩

theorem tracker_commit (mode : CommitMode) (t : Tracker) (b : β) (ps : List Position) :
    (mode.commit t b ps).tracker = (t.advance ps).tracker := by
  cases mode <;> rfl

section Watched

theorem store_watched (l : Ledger β) (qs : List Position) :
    (store l qs).1.broker = (store l.broker qs).1 ∧ (store l qs).2 = (store l.broker qs).2 := by
  induction qs generalizing l with
  | nil => exact ⟨rfl, rfl⟩
  | cons q qs ih =>
      have hq : Broker.store l q = l.enter (.one q) (Broker.store l.broker q) := rfl
      obtain ⟨hb, he⟩ := ih (l.enter (.one q) (Broker.store l.broker q)).1
      simp only [store, hq]
      rcases hs : Broker.store l.broker q with ⟨b, _ | _⟩ <;> simp_all [Ledger.enter]

theorem commitAll_watched (l : Ledger β) (qs : List Position) :
    (commitAll l qs).1.broker = (commitAll l.broker qs).1 ∧ (commitAll l qs).2 = (commitAll l.broker qs).2 := by
  have hqs : Broker.commit l qs = l.enter (.all qs) (Broker.commit l.broker qs) := rfl
  simp only [commitAll, hqs]
  split
  · exact ⟨rfl, rfl⟩
  · rcases hc : Broker.commit l.broker qs with ⟨b, _ | _⟩ <;> simp [Ledger.enter]

theorem commit_watched (mode : CommitMode) (t : Tracker) (l : Ledger β) (ps : List Position) :
    (mode.commit t l ps).broker.broker = (mode.commit t l.broker ps).broker ∧
      (mode.commit t l ps).events = (mode.commit t l.broker ps).events := by
  cases mode with
  | buffered =>
      obtain ⟨hb, he⟩ := store_watched l (t.advance ps).claimed
      exact ⟨hb, congrArg _ he⟩
  | immediate =>
      obtain ⟨hb, he⟩ := commitAll_watched l (t.advance ps).claimed
      exact ⟨hb, congrArg _ he⟩

/-- The ledger is kept unnoticed: the commits and the broker behind it go the same way without it. -/
theorem series_watched (mode : CommitMode) (t : Tracker) (l : Ledger β) (pss : List (List Position)) :
    (mode.series t l pss).tracker = (mode.series t l.broker pss).tracker ∧
      (mode.series t l pss).broker.broker = (mode.series t l.broker pss).broker ∧
      (mode.series t l pss).events = (mode.series t l.broker pss).events := by
  induction pss generalizing t l with
  | nil => exact ⟨rfl, rfl, rfl⟩
  | cons ps pss ih =>
      obtain ⟨hb, he⟩ := commit_watched mode t l ps
      obtain ⟨ht', hb', he'⟩ := ih (t.advance ps).tracker (mode.commit t l ps).broker
      rw [hb] at ht' hb' he'
      simp only [series, tracker_commit]
      exact ⟨ht', hb', by rw [he, he']⟩

end Watched

def calls : CommitMode → List Position → List Handover
  | buffered, qs => qs.map .one
  | immediate, qs => if qs.isEmpty then [] else [.all qs]

theorem positions_calls (mode : CommitMode) (qs : List Position) :
    (mode.calls qs).flatMap Handover.positions = qs := by
  cases mode with
  | buffered => simp [calls, List.flatMap_map, Handover.positions]
  | immediate => cases qs <;> simp [calls, Handover.positions]

theorem calls_store (l : Ledger β) (qs : List Position) : (store l qs).1.calls = l.calls ++ qs.map .one := by
  induction qs generalizing l with
  | nil => simp [store]
  | cons q qs ih =>
      have hq : (store l [q]).1.calls = l.calls ++ [.one q] := by
        rw [broker_store]
        exact l.calls_enter (.one q) _
      rw [store_cons, ih, hq, List.map_cons, List.append_assoc, List.singleton_append]

theorem calls_commit (mode : CommitMode) (t : Tracker) (l : Ledger β) (ps : List Position) :
    (mode.commit t l ps).broker.calls = l.calls ++ mode.calls (t.advance ps).claimed := by
  cases mode with
  | buffered => exact calls_store l _
  | immediate =>
      change (commitAll l (t.advance ps).claimed).1.calls = _
      cases (t.advance ps).claimed with
      | nil => simp [commitAll, calls]
      | cons q qs =>
          rw [broker_commitAll]
          exact l.calls_enter (.all (q :: qs)) _

theorem tracker_series (mode : CommitMode) (t : Tracker) (b : β) (pss : List (List Position)) :
    (mode.series t b pss).tracker = (t.advance pss.flatten).tracker := by
  induction pss generalizing t b with
  | nil => rfl
  | cons ps pss ih => rw [series, ih, tracker_commit, List.flatten_cons, (t.advance_append ps _).2]

theorem series_append (mode : CommitMode) (t : Tracker) (c : β) (pss pss' : List (List Position)) :
    let r := mode.series t c pss
    let r' := mode.series r.tracker r.broker pss'
    (mode.series t c (pss ++ pss')).tracker = r'.tracker ∧ (mode.series t c (pss ++ pss')).broker = r'.broker := by
  induction pss generalizing t c with
  | nil => exact ⟨rfl, rfl⟩
  | cons ps pss ih => exact ih (mode.commit t c ps).tracker (mode.commit t c ps).broker

theorem calls_series (mode : CommitMode) (t : Tracker) (l : Ledger β) (pss : List (List Position)) :
    (mode.series t l pss).broker.calls = l.calls ++ (t.claims pss).flatMap mode.calls := by
  induction pss generalizing t l with
  | nil => simp [series, Tracker.claims]
  | cons ps pss ih => rw [series, ih, calls_commit, tracker_commit, Tracker.claims, List.flatMap_cons, List.append_assoc]

section Series

variable (mode : CommitMode) (t : Tracker) (b : β) (pss : List (List Position))

theorem handed_series : (mode.series t (Ledger.mk b []) pss).broker.handed = (t.advance pss.flatten).claimed := by
  have hcalls : (Ledger.mk b []).calls = [] := rfl
  rw [Ledger.handed_eq, calls_series, hcalls, List.nil_append, List.flatMap_assoc, ← t.claims_flatten]
  simp only [positions_calls, List.flatMap_id', List.flatten_eq_flatMap]

theorem offsets_handed (p : Partition) :
    p.offsets (mode.series t (Ledger.mk b []) pss).broker.handed = maximaAbove (t.mark p) (p.offsets pss.flatten) := by
  rw [handed_series, Tracker.offsets_claimed]

theorem calls_buffered : (buffered.series t (Ledger.mk b []) pss).broker.calls = (t.claims pss).flatten.map .one := by
  rw [calls_series, List.map_flatten, ← List.flatMap_def]
  rfl

theorem calls_immediate : (immediate.series t (Ledger.mk b []) pss).broker.calls =
    ((t.claims pss).filter (fun qs => !qs.isEmpty)).map .all := by
  rw [calls_series]
  induction t.claims pss with
  | nil => rfl
  | cons qs qss ih => cases qs <;> simp_all [calls, Ledger.calls]

end Series

/-- Whatever the brokers answer, what either strategy hands over of a partition are the positions that exceed the mark of
the tracker and all that were submitted before. The one stores them one by one, the other commits the same positions in
lists, of which none is empty. -/
theorem strategies_agree {β' : Type} [Broker β'] (t : Tracker) (b : β) (b' : β') (pss : List (List Position)) :
    (∀ (mode : CommitMode) (p : Partition), let l := (mode.series t (Ledger.mk b []) pss).broker
      (p.offsets l.handed).Pairwise (· ≤ ·) ∧ (p.offsets l.accepted).Pairwise (· < ·) ∧
        p.offsets l.handed = maximaAbove (t.mark p) (p.offsets pss.flatten)) ∧
    let stored := (buffered.series t (Ledger.mk b []) pss).broker
    let sent := (immediate.series t (Ledger.mk b' []) pss).broker
    stored.calls = sent.commits.flatten.map .one ∧ sent.calls = sent.commits.map .all ∧ [] ∉ sent.commits := by
  refine ⟨fun mode p => ?_, ?_⟩
  · intro l
    have hmax : p.offsets l.handed = maximaAbove (t.mark p) (p.offsets pss.flatten) := mode.offsets_handed t b pss p
    have hclimb : (p.offsets l.handed).Pairwise (· < ·) := hmax ▸ maximaAbove_climbs _ _
    exact ⟨hclimb.imp Int.le_of_lt, hclimb.sublist ((l.accepted_sublist.filter _).map _), hmax⟩
  · intro stored sent
    have hcommits : sent.commits = (t.claims pss).filter (fun qs => !qs.isEmpty) := by
      rw [Ledger.commits, calls_immediate, List.filterMap_map]
      exact List.filterMap_some
    refine ⟨?_, ?_, ?_⟩
    · rw [hcommits, List.flatten_filter_not_isEmpty]
      exact calls_buffered t b pss
    · rw [hcommits]
      exact calls_immediate t b' pss
    · simp [hcommits]

/-- A position that was handed over, accepted or not, is not handed over again. Of what is submitted later, the positions
go to the broker that exceed all that it was given before, and while it accepts them they are committed. -/
theorem handed_over_once {β' : Type} [Broker β'] (mode : CommitMode) (t : Tracker) (b : β) (b' : β')
    (pss pss' : List (List Position)) {e : Submission} {q : Position}
    (he : e ∈ (mode.series t (Ledger.mk b []) pss).broker.entries) (hq : q ∈ e.call.positions) :
    let r := mode.series t (Ledger.mk b []) pss
    let l := (mode.series r.tracker (Ledger.mk b' []) pss').broker
    q ∉ l.handed ∧
      (∃ top ∈ q.partition.offsets r.broker.handed, (∀ o ∈ q.partition.offsets r.broker.handed, o ≤ top) ∧
        q.partition.offsets l.handed = maximaAbove top (q.partition.offsets pss'.flatten)) ∧
      ((∀ e ∈ l.entries, e.accepted) → l.accepted = l.handed) := by
  intro r l
  have hgiven : q ∈ r.broker.handed := List.mem_flatMap.mpr ⟨e, he, hq⟩
  have hmem : q.offset ∈ q.partition.offsets r.broker.handed := Partition.offset_mem_offsets hgiven
  have hclimb : (q.partition.offsets r.broker.handed).Pairwise (· < ·) := by
    rw [mode.offsets_handed t b pss]
    exact maximaAbove_climbs _ _
  have hmark : r.tracker.mark q.partition = (q.partition.offsets r.broker.handed).getLastD (t.mark q.partition) := by
    rw [mode.tracker_series, Tracker.mark_advance, mode.handed_series]
  have hlater : q.partition.offsets l.handed = maximaAbove (r.tracker.mark q.partition) (q.partition.offsets pss'.flatten) :=
    mode.offsets_handed r.tracker b' pss' q.partition
  obtain ⟨htop, hle⟩ := last_of_climbing hclimb (t.mark q.partition) hmem
  rw [← hmark] at htop hle
  refine ⟨fun hagain => ?_, ⟨r.tracker.mark q.partition, htop, hle, hlater⟩, Ledger.accepted_eq⟩
  have habove : r.tracker.mark q.partition < q.offset :=
    lt_of_mem_maximaAbove (hlater ▸ Partition.offset_mem_offsets hagain)
  exact absurd (hle q.offset hmem) (Int.not_le.mpr habove)

section Refusal

def refusing : Connection := ⟨.make "events" 1, { group := "readers", trouble := { commits := true } }⟩

def willing : Connection := ⟨.make "events" 1, { group := "readers" }⟩

def fifth : Position := ⟨⟨"events", 0⟩, 5⟩

theorem handed_over_once_refused :
    let r := immediate.series {} (Ledger.mk refusing []) [[fifth]]
    let l := (immediate.series r.tracker (Ledger.mk willing []) [[fifth], [⟨⟨"events", 0⟩, 6⟩]]).broker
    (⟨.all [fifth], false⟩ : Submission) ∈ r.broker.entries ∧ fifth ∉ l.handed ∧
      (∃ top ∈ fifth.partition.offsets r.broker.handed, (∀ o ∈ fifth.partition.offsets r.broker.handed, o ≤ top) ∧
        fifth.partition.offsets l.handed = maximaAbove top [5, 6]) ∧
      l.accepted = [⟨⟨"events", 0⟩, 6⟩] := by
  intro r l
  have he : (⟨.all [fifth], false⟩ : Submission) ∈ r.broker.entries := by decide
  obtain ⟨hnot, htop, hall⟩ := handed_over_once immediate {} refusing willing [[fifth]]
    [[fifth], [⟨⟨"events", 0⟩, 6⟩]] he (List.mem_singleton_self fifth)
  exact ⟨he, hnot, htop, (hall (by decide)).trans (by decide)⟩

/-- A position that the broker refused is not given to it another time, though none above it came in between. -/
theorem refused_stays_used_up : ¬ ∀ (mode : CommitMode) (t : Tracker) (b b' : Connection)
    (pss between : List (List Position)) (ps : List Position) (e : Submission) (q : Position),
    let r := mode.series t (Ledger.mk b []) pss
    let r' := mode.series r.tracker (Ledger.mk b' []) between
    e ∈ r.broker.entries → e.accepted = false → q ∈ e.call.positions → q ∈ ps →
      (∀ o ∈ q.partition.offsets r'.broker.handed, o ≤ q.offset) →
      q ∈ (mode.commit r'.tracker (Ledger.mk r'.broker.broker []) ps).broker.handed := by
  intro h
  have hagain := h immediate {} refusing willing [[fifth]] [] [fifth] ⟨.all [fifth], false⟩ fifth
  revert hagain
  decide

end Refusal

end CommitMode

end StreamTrigger
