import StreamTrigger.Rehearsal.Script
import StreamTrigger.Scaling.Provider
import Mathlib.Algebra.Order.BigOperators.Group.List
import Mathlib.Algebra.Ring.Int.Defs

namespace StreamTrigger

def Reply.ofExcept {α : Type} : Except BrokerError α → Reply α
  | .ok a => .ok a
  | .error e => .failed e

/-- What a broker answers to a provider. An assignment or a cached entry that cannot be read is `none`. -/
structure LagAnswers where
  numbers : Except BrokerError (List Int)
  committed : Except BrokerError (Table Partition (Option Int))
  owned : Option (List Partition)
  cached : Partition → Option Watermarks
  current : Partition → Except BrokerError Watermarks

/-- Who asks a broker in one of these states gets these answers, and leaves it in such a state. -/
structure Answers {β : Type} [Broker β] (S : β → Prop) (x : LagAnswers) : Prop where
  partitions : ∀ b topic timeout, S b →
    S (Broker.partitions b topic timeout).1 ∧ (Broker.partitions b topic timeout).2 = .ofExcept x.numbers
  committed : ∀ b qs timeout, S b →
    S (Broker.committed b qs timeout).1 ∧ (Broker.committed b qs timeout).2 = x.committed
  assignment : ∀ b, S b → S (Broker.assignment b).1 ∧ (Broker.assignment b).2.toOption = x.owned
  cached : ∀ b q, S b → S (Broker.cachedWatermarks b q).1 ∧
    match x.cached q with
    | some w => (Broker.cachedWatermarks b q).2 = .ok w
    | none => ∃ e, (Broker.cachedWatermarks b q).2 = .failed e
  current : ∀ b q timeout, S b →
    S (Broker.queryWatermarks b q timeout).1 ∧ (Broker.queryWatermarks b q timeout).2 = .ofExcept (x.current q)

namespace Watermarks

@[mk_iff] structure Valid (w : Watermarks) : Prop where
  low : ∀ v ∈ w.low, 0 ≤ v ∧ v ≤ Word.greatest
  high : ∀ v ∈ w.high, 0 ≤ v ∧ v ≤ Word.greatest

instance (w : Watermarks) : Decidable w.Valid := decidable_of_iff _ (valid_iff w).symm

def behind (w : Watermarks) : Option Int → Int
  | none => max 0 (w.high.getD 0 - w.low.getD 0)
  | some c => max 0 (w.high.getD 0 - max c (w.low.getD 0))

variable {w : Watermarks} {committed : Option Int}

theorem behind_nonneg (w : Watermarks) (committed : Option Int) : 0 ≤ w.behind committed := by
  cases committed <;> exact Int.le_max_left ..

theorem getD_word {mark : Option Int} (h : ∀ v ∈ mark, 0 ≤ v ∧ v ≤ Word.greatest) :
    0 ≤ mark.getD 0 ∧ mark.getD 0 ≤ Word.greatest := by
  cases mark with
  | none => exact ⟨Int.le_refl 0, by decide⟩
  | some v => exact h v rfl

theorem fits_sub {x y : Int} (hx : 0 ≤ x ∧ x ≤ Word.greatest) (hy : 0 ≤ y ∧ y ≤ Word.greatest) : Word.Fits (x - y) := by
  simp only [Word.Fits, Word.least, Word.greatest] at hx hy ⊢
  omega

theorem sub_marks (h : w.Valid) : Word.sub (w.high.getD 0) (w.low.getD 0) = .ok (w.high.getD 0 - w.low.getD 0) :=
  if_pos (fits_sub (getD_word h.high) (getD_word h.low))

theorem lag_uncommitted (h : w.Valid) : w.lag none = .ok (max (w.high.getD 0 - w.low.getD 0) 0) := by
  simp [lag, sub_marks h, bind, Except.bind, pure, Except.pure]

/-- Valid marks leave one difference that may overflow, that of the high mark and the committed position. -/
theorem lag_committed (h : w.Valid) (c : Int) :
    w.lag (some c) = (Word.sub (w.high.getD 0) c).map (fun behind => max (min behind (w.high.getD 0 - w.low.getD 0)) 0) := by
  cases hc : Word.sub (w.high.getD 0) c with
  | error f => simp [lag, hc, bind, Except.bind, Except.map]
  | ok behind => simp [lag, hc, sub_marks h, bind, Except.bind, pure, Except.pure, Except.map]

theorem lag_eq_behind (h : w.Valid) (hc : ∀ c ∈ committed, 0 ≤ c ∧ c ≤ Word.greatest) :
    w.lag committed = .ok (w.behind committed) := by
  cases committed with
  | none => rw [lag_uncommitted h, behind, Int.max_comm]
  | some c =>
      have hsub : Word.sub (w.high.getD 0) c = .ok (w.high.getD 0 - c) := if_pos (fits_sub (getD_word h.high) (hc c rfl))
      rw [lag_committed h, hsub, behind, Except.map, Except.ok.injEq]
      omega

end Watermarks

theorem LagProvider.trusts_eq_false {w : Watermarks} {committed : Option Int} :
    trusts w committed = false ↔ w.high = none ∨ w.low = some 0 ∧ committed = none := by
  cases hw : w.high <;> simp [trusts, hw]

namespace LagAnswers

def position (x : LagAnswers) (q : Partition) : Option Int := ((x.committed.toOption.getD .empty).get? q).join

/-- The cache tells what the client owns, if the high mark has come in, and a low mark of zero only with a commit. -/
def NeedsQuery (x : LagAnswers) (q : Partition) : Prop :=
  q ∉ x.owned.getD [] ∨ ∀ w ∈ x.cached q, w.high = none ∨ w.low = some 0 ∧ x.position q = none

instance (x : LagAnswers) (q : Partition) : Decidable (x.NeedsQuery q) := inferInstanceAs (Decidable (_ ∨ _))

def marks (x : LagAnswers) (q : Partition) : Except BrokerError Watermarks :=
  if x.NeedsQuery q then x.current q else .ok ((x.cached q).getD .unset)

def standIn (x : LagAnswers) (q : Partition) : Option Watermarks :=
  if (x.owned.getD []).contains q then (x.cached q).filter (fun w => LagProvider.trusts w (x.position q)) else none

theorem standIn_eq_none {x : LagAnswers} {q : Partition} : x.standIn q = none ↔ x.NeedsQuery q := by
  by_cases howned : q ∈ x.owned.getD []
  · rw [standIn, if_pos (List.contains_iff_mem.mpr howned), Option.filter_eq_none_iff]
    simp [NeedsQuery, howned, LagProvider.trusts_eq_false]
  · simp [standIn, NeedsQuery, howned]

theorem marks_eq (x : LagAnswers) (q : Partition) :
    x.marks q = match x.standIn q with
      | some w => .ok w
      | none => x.current q := by
  cases hw : x.standIn q with
  | none => exact if_pos (standIn_eq_none.mp hw)
  | some w =>
      have hserves : ¬ x.NeedsQuery q := fun h => by rw [standIn_eq_none.mpr h] at hw; cases hw
      rw [standIn] at hw
      split at hw
      · rw [marks, if_neg hserves, (Option.filter_eq_some_iff.mp hw).1, Option.getD_some]
      · cases hw

def lags (x : LagAnswers) : List Partition → Reply (List (Partition × Int))
  | [] => .ok []
  | q :: qs =>
      match x.marks q with
      | .error e => .failed e
      | .ok w =>
          match w.lag (x.position q) with
          | .error f => .broken f
          | .ok n =>
              match x.lags qs with
              | .ok ls => .ok ((q, n) :: ls)
              | other => other

/-- The partitions of which a sample is taken: those in the cache of the provider, or those of the topic. -/
def listed (x : LagAnswers) (p : LagProvider) (now : Nat) : Except BrokerError (List Partition) :=
  match p.cache.get? now with
  | some qs => .ok qs
  | none => x.numbers.map (fun ns => ns.map (fun n => ⟨p.topic, n⟩))

def Unanswered (x : LagAnswers) (qs : List Partition) : Prop :=
  x.committed.isOk = false ∨ ∃ q ∈ qs, x.NeedsQuery q ∧ (x.current q).isOk = false

instance (x : LagAnswers) (qs : List Partition) : Decidable (x.Unanswered qs) := inferInstanceAs (Decidable (_ ∨ _))

def behind (x : LagAnswers) (q : Partition) : Int := ((x.marks q).toOption.getD .unset).behind (x.position q)

def reference (x : LagAnswers) : Except BrokerError (List Partition) → Int × Int
  | .error _ => (0, 0)
  | .ok [] => (0, 0)
  | .ok (q :: qs) =>
      (if x.Unanswered (q :: qs) then 0 else min ((q :: qs).map x.behind).sum Word.greatest,
        min ((q :: qs).length : Int) 2147483647)

structure Valid (x : LagAnswers) : Prop where
  cached : ∀ q, ∀ w ∈ x.cached q, w.Valid
  current : ∀ q w, x.current q = .ok w → w.Valid
  position : ∀ q, ∀ c ∈ x.position q, 0 ≤ c ∧ c ≤ Word.greatest

variable {x : LagAnswers}

theorem Valid.marks (hx : x.Valid) {q : Partition} {w : Watermarks} (hw : x.marks q = .ok w) : w.Valid := by
  rw [LagAnswers.marks] at hw
  split at hw
  · exact hx.current q w hw
  · obtain rfl := Except.ok.inj hw
    cases hc : x.cached q with
    | none => exact ⟨by simp [Watermarks.unset], by simp [Watermarks.unset]⟩
    | some w => exact hx.cached q w hc

theorem reference_perm (x : LagAnswers) {qs qs' : List Partition} (h : qs.Perm qs') :
    x.reference (.ok qs) = x.reference (.ok qs') := by
  match qs, qs' with
  | [], [] => rfl
  | [], q :: qs => exact absurd h.nil_eq (by simp)
  | q :: qs, [] => exact absurd h.symm.nil_eq (by simp)
  | q :: qs, q' :: qs' =>
      have hiff : x.Unanswered (q :: qs) ↔ x.Unanswered (q' :: qs') := by
        simp only [Unanswered, h.mem_iff]
      simp only [reference, hiff, h.length_eq, (h.map x.behind).sum_eq]

theorem marks_isOk (x : LagAnswers) (q : Partition) :
    (x.marks q).isOk = false ↔ x.NeedsQuery q ∧ (x.current q).isOk = false := by
  by_cases hq : x.NeedsQuery q <;> simp [marks, hq, Except.isOk, Except.toBool]

theorem Valid.lags (hx : x.Valid) (qs : List Partition) :
    ((∃ q ∈ qs, (x.marks q).isOk = false) ∧ ∃ e, x.lags qs = .failed e) ∨
      (¬ ∃ q ∈ qs, (x.marks q).isOk = false) ∧ x.lags qs = .ok (qs.map (fun q => (q, x.behind q))) := by
  induction qs with
  | nil => exact .inr ⟨by simp, rfl⟩
  | cons q qs ih =>
      rw [LagAnswers.lags]
      simp only [List.mem_cons, exists_eq_or_imp]
      cases hm : x.marks q with
      | error e => exact .inl ⟨.inl (by simp [Except.isOk, Except.toBool]), e, rfl⟩
      | ok w =>
          have hlag : w.lag (x.position q) = .ok (x.behind q) := by
            rw [Watermarks.lag_eq_behind (hx.marks hm) (hx.position q), behind, hm]
            rfl
          dsimp only
          rw [hlag]
          rcases ih with ⟨hfails, e, he⟩ | ⟨hall, hok⟩
          · exact .inl ⟨.inr hfails, e, by simp only [he]⟩
          · refine .inr ⟨?_, by simp only [hok, List.map_cons]⟩
            simpa [Except.isOk, Except.toBool] using hall

end LagAnswers

def Measured.Kept {β : Type} (m : Measured β) : Prop := ∀ s, m.sample = .ok s → m.provider.last = some s

namespace LagProvider

theorem foldl_addClamped {ls : List (Partition × Int)} (h : ∀ l ∈ ls, 0 ≤ l.2) (acc : Int)
    (hacc : 0 ≤ acc ∧ acc ≤ Word.greatest) :
    ls.foldl (fun total l => Word.addClamped total l.2) acc = min (acc + (ls.map Prod.snd).sum) Word.greatest := by
  induction ls generalizing acc with
  | nil =>
      simp only [List.foldl_nil, List.map_nil, List.sum_nil]
      omega
  | cons l ls ih =>
      obtain ⟨hl, hls⟩ := List.forall_mem_cons.mp h
      have hsum : 0 ≤ (ls.map Prod.snd).sum := List.sum_nonneg (List.forall_mem_map.mpr hls)
      -- From zero on a sum is clamped at one side only, and what comes later does not take it below that again.
      have hclamp : Word.addClamped acc l.2 = min (acc + l.2) Word.greatest := by
        simp only [Word.addClamped, Word.clamp, Word.least, Word.greatest] at hacc ⊢
        omega
      rw [List.foldl_cons, ih hls _ (by rw [hclamp]; omega), hclamp, List.map_cons, List.sum_cons]
      omega

theorem total_eq_sum {ls : List (Partition × Int)} (h : ∀ l ∈ ls, 0 ≤ l.2) :
    total ls = min (ls.map Prod.snd).sum Word.greatest := by
  have htotal := foldl_addClamped h 0 ⟨Int.le_refl 0, by decide⟩
  rwa [Int.zero_add] at htotal

variable {β : Type}

theorem keep_kept (p : LagProvider) (b : β) (s : LagSample) (notices : List ScaleTask) : (p.keep b s notices).Kept := by
  intro s' h
  obtain rfl : s = s' := Except.ok.inj h
  rfl

variable [Broker β] {S : β → Prop} {x : LagAnswers} {p : LagProvider} {b : β}

theorem measure_kept (p : LagProvider) (b : β) (now : Moment) : (p.measure b now).Kept := by
  rw [measure]
  generalize p.partitions b now.instant = r
  obtain ⟨p', b', r⟩ := r
  cases r with
  | failed e => exact p'.keep_kept b' _ _
  | broken f => exact fun _ h => by cases h
  | ok qs =>
      cases qs with
      | nil => exact p'.keep_kept b' _ _
      | cons q qs =>
          dsimp only
          generalize p'.allLags b' (q :: qs) = r
          obtain ⟨b'', r⟩ := r
          cases r with
          | ok ls => exact p'.keep_kept b'' _ _
          | failed e => exact p'.keep_kept b'' _ _
          | broken f => exact fun _ h => by cases h

theorem watermarks_answered (h : Answers S x) (hb : S b) (q : Partition) :
    S (p.watermarks b q ((x.owned.getD []).contains q) (x.position q)).1 ∧
      (p.watermarks b q ((x.owned.getD []).contains q) (x.position q)).2 = .ofExcept (x.marks q) := by
  rw [watermarks, x.marks_eq, LagAnswers.standIn]
  split
  · have hcached := h.cached b q hb
    generalize Broker.cachedWatermarks b q = r at hcached
    obtain ⟨b', r⟩ := r
    have hcurrent := h.current b' q p.timeout hcached.1
    cases hw : x.cached q with
    | none =>
        obtain ⟨e, rfl⟩ : ∃ e, r = .failed e := by simpa [hw] using hcached.2
        exact hcurrent
    | some w =>
        obtain rfl : r = .ok w := by simpa [hw] using hcached.2
        by_cases ht : trusts w (x.position q)
        · simpa [ht, Option.filter, Reply.ofExcept] using hcached.1
        · simpa [ht, Option.filter] using hcurrent
  · exact h.current b q p.timeout hb

theorem lags_answered (h : Answers S x) (hb : S b) {committed : Table Partition (Option Int)}
    (hc : x.committed = .ok committed) (qs : List Partition) :
    (p.lags committed (x.owned.getD []) b qs).2 = x.lags qs := by
  induction qs generalizing b with
  | nil => rfl
  | cons q qs ih =>
      have hwatermarks := watermarks_answered (p := p) h hb q
      have hposition : (committed.get? q).join = x.position q := by rw [LagAnswers.position, hc]; rfl
      rw [lags, LagAnswers.lags, hposition]
      generalize p.watermarks b q ((x.owned.getD []).contains q) (x.position q) = r at hwatermarks
      obtain ⟨b', r⟩ := r
      obtain ⟨hb', rfl⟩ := hwatermarks
      cases x.marks q with
      | error e => rfl
      | ok w =>
          dsimp only [Reply.ofExcept]
          cases w.lag (x.position q) with
          | error f => rfl
          | ok n =>
              have hrest := ih hb'
              dsimp only
              generalize p.lags committed (x.owned.getD []) b' qs = r at hrest
              obtain ⟨b'', r⟩ := r
              dsimp only at hrest
              subst hrest
              cases x.lags qs <;> rfl

theorem allLags_answered (h : Answers S x) (hb : S b) (qs : List Partition) :
    (p.allLags b qs).2 = match x.committed with
      | .ok _ => x.lags qs
      | .error e => .failed e := by
  have hcommitted := h.committed b qs p.timeout hb
  rw [allLags]
  generalize Broker.committed b qs p.timeout = r at hcommitted
  obtain ⟨b', r⟩ := r
  obtain ⟨hb', rfl⟩ := hcommitted
  cases hc : x.committed with
  | error e => rfl
  | ok committed =>
      have hassignment := h.assignment b' hb'
      dsimp only
      generalize Broker.assignment b' = r at hassignment
      obtain ⟨b'', r⟩ := r
      obtain ⟨hb'', howned⟩ := hassignment
      have hlags := lags_answered (p := p) h hb'' hc qs
      rw [← howned] at hlags
      cases r <;> exact hlags

theorem partitions_answered (h : Answers S x) (hb : S b) (p : LagProvider) (now : Nat) :
    S (p.partitions b now).2.1 ∧ (p.partitions b now).2.2 = .ofExcept (x.listed p now) := by
  rw [partitions, LagAnswers.listed]
  cases p.cache.get? now with
  | some qs => exact ⟨hb, rfl⟩
  | none =>
      have hnumbers := h.partitions b p.topic p.timeout hb
      dsimp only
      generalize Broker.partitions b p.topic p.timeout = r at hnumbers
      obtain ⟨b', r⟩ := r
      obtain ⟨hb', rfl⟩ := hnumbers
      cases x.numbers <;> exact ⟨hb', rfl⟩

def outcome (x : LagAnswers) (time : Instant) : Except BrokerError (List Partition) → Except Fault LagSample
  | .error _ => .ok ⟨0, 0, time⟩
  | .ok [] => .ok ⟨0, 0, time⟩
  | .ok (q :: qs) =>
      let count : Int := (min (q :: qs).length greatestCount : Nat)
      match x.committed with
      | .error _ => .ok ⟨0, count, time⟩
      | .ok _ =>
          match x.lags (q :: qs) with
          | .ok ls => .ok ⟨total ls, count, time⟩
          | .failed _ => .ok ⟨0, count, time⟩
          | .broken f => .error f

theorem measure_answered (h : Answers S x) (hb : S b) (p : LagProvider) (now : Moment) :
    (p.measure b now).sample = outcome x now.time (x.listed p now.instant) := by
  have hpartitions := partitions_answered h hb p now.instant
  rw [measure]
  generalize p.partitions b now.instant = r at hpartitions
  obtain ⟨p', b', r⟩ := r
  obtain ⟨hb', rfl⟩ := hpartitions
  cases x.listed p now.instant with
  | error e => rfl
  | ok qs =>
      cases qs with
      | nil => rfl
      | cons q qs =>
          have hlags := allLags_answered (p := p') h hb' (q :: qs)
          dsimp only [Reply.ofExcept, outcome]
          generalize p'.allLags b' (q :: qs) = r at hlags
          obtain ⟨b'', r⟩ := r
          dsimp only at hlags
          subst hlags
          cases x.committed with
          | error e => rfl
          | ok committed => cases x.lags (q :: qs) <;> rfl

theorem outcome_eq (hx : x.Valid) (time : Instant) (listed : Except BrokerError (List Partition)) :
    outcome x time listed = .ok ⟨(x.reference listed).1, (x.reference listed).2, time⟩ := by
  match listed with
  | .error e => rfl
  | .ok [] => rfl
  | .ok (q :: qs) =>
      have hcount : ((min (q :: qs).length greatestCount : Nat) : Int) = min ((q :: qs).length : Int) 2147483647 := by
        rw [greatestCount]
        omega
      rw [outcome, LagAnswers.reference, hcount]
      cases hc : x.committed with
      | error e =>
          rw [if_pos (.inl (by rw [hc]; rfl))]
      | ok committed =>
          rcases hx.lags (q :: qs) with ⟨⟨q', hq', hfails⟩, e, he⟩ | ⟨hall, hok⟩
          · rw [if_pos (.inr ⟨q', hq', (x.marks_isOk q').mp hfails⟩)]
            simp only [he]
          · have htold : ¬ x.Unanswered (q :: qs) := by
              rintro (hnone | ⟨q', hq', hfails⟩)
              · rw [hc] at hnone
                cases hnone
              · exact hall ⟨q', hq', (x.marks_isOk q').mpr hfails⟩
            rw [if_neg htold]
            simp only [hok]
            rw [total_eq_sum (by simp [LagAnswers.behind, Watermarks.behind_nonneg]), List.map_map]
            rfl

/-- A sample is taken whatever fails, it is the one by reference, and it is kept. Its lag does not depend on the order of
the partitions. -/
theorem sample_eq_reference (h : Answers S x) (hx : x.Valid) (hb : S b) (p : LagProvider) (now : Moment) :
    let s : LagSample := ⟨(x.reference (x.listed p now.instant)).1, (x.reference (x.listed p now.instant)).2, now.time⟩
    (p.measure b now).sample = .ok s ∧ (p.measure b now).provider.last = some s ∧
      ∀ (T : β → Prop) (c : β) (numbers : Except BrokerError (List Int)) (p' : LagProvider) (later : Moment)
        (qs qs' : List Partition), Answers T { x with numbers := numbers } → T c →
        x.listed p now.instant = .ok qs → { x with numbers := numbers }.listed p' later.instant = .ok qs' →
        qs.Perm qs' → (p'.measure c later).sample.map LagSample.lag = .ok s.lag := by
  intro s
  have hsample : (p.measure b now).sample = .ok s := by
    rw [measure_answered h hb, outcome_eq hx]
  refine ⟨hsample, p.measure_kept b now s hsample, ?_⟩
  intro T c numbers p' later qs qs' h' hc hqs hqs' hperm
  have hx' : { x with numbers := numbers }.Valid := ⟨hx.cached, hx.current, hx.position⟩
  rw [measure_answered h' hc, outcome_eq hx', hqs', ← LagAnswers.reference_perm _ hperm, ← hqs]
  rfl

end LagProvider

namespace ScriptAnswers

def row (rows : WatermarkRows) (q : Partition) : Except BrokerError Watermarks :=
  match rows with
  | none => .error (.metadataFetch .requestTimedOut)
  | some rows =>
      match rows.find? (fun r => r.1 = q) with
      | none => .ok .unset
      | some (_, some w) => .ok w
      | some (_, none) => .error (.metadataFetch .requestTimedOut)

theorem watermarks_eq (rows : WatermarkRows) (q : Partition) :
    ScriptedBroker.watermarks rows q = .ofExcept (row rows q) := by
  cases rows with
  | none => rfl
  | some rows =>
      rw [ScriptedBroker.watermarks, row]
      cases rows.find? (fun r => r.1 = q) with
      | none => rfl
      | some r => obtain ⟨p, _ | w⟩ := r <;> rfl

def lagAnswers (a : ScriptAnswers) (numbers : List Int) : LagAnswers where
  numbers := .ok numbers
  committed := match a.committed with
    | some rows => .ok (.ofList rows)
    | none => .error (.offsetFetch .coordinatorNotAvailable)
  owned := a.assignment
  cached q := (row a.cached q).toOption
  current := row a.queried

theorem answers {a : ScriptAnswers} {numbers : List Int} (h : a.partitions = .listed numbers) :
    Answers (fun b : ScriptedBroker => b.answers = a) (a.lagAnswers numbers) where
  partitions b topic timeout hb := ⟨hb, by simp only [Broker.partitions, hb, h, lagAnswers, Reply.ofExcept]⟩
  committed b qs timeout hb := ⟨hb, by subst hb; rfl⟩
  assignment b hb := ⟨hb, by simp only [Broker.assignment, hb, lagAnswers]; cases a.assignment <;> rfl⟩
  cached b q hb := by
    refine ⟨hb, ?_⟩
    simp only [Broker.cachedWatermarks, hb, lagAnswers, watermarks_eq]
    cases row a.cached q with
    | ok w => rfl
    | error e => exact ⟨e, rfl⟩
  current b q timeout hb := ⟨hb, by simp only [Broker.queryWatermarks, hb, lagAnswers, watermarks_eq]⟩

theorem valid_row {rows : WatermarkRows} (h : ∀ rs ∈ rows, ∀ r ∈ rs, ∀ w ∈ r.2, w.Valid) {q : Partition}
    {w : Watermarks} (hw : row rows q = .ok w) : w.Valid := by
  cases rows with
  | none => cases hw
  | some rs =>
      rw [row] at hw
      cases hr : rs.find? (fun r => r.1 = q) with
      | none =>
          rw [hr] at hw
          obtain rfl := Except.ok.inj hw
          decide
      | some r =>
          have hmem := List.mem_of_find?_eq_some hr
          obtain ⟨p, _ | v⟩ := r
          · rw [hr] at hw
            cases hw
          · rw [hr] at hw
            obtain rfl := Except.ok.inj hw
            exact h rs rfl _ hmem v rfl

theorem valid_lagAnswers {a : ScriptAnswers} (hcached : ∀ rs ∈ a.cached, ∀ r ∈ rs, ∀ w ∈ r.2, w.Valid)
    (hqueried : ∀ rs ∈ a.queried, ∀ r ∈ rs, ∀ w ∈ r.2, w.Valid)
    (hcommitted : ∀ rs ∈ a.committed, ∀ e ∈ (Table.ofList rs).entries, ∀ c ∈ e.2, 0 ≤ c ∧ c ≤ Word.greatest)
    (numbers : List Int) : (a.lagAnswers numbers).Valid where
  cached q w hw := by
    have hrow : (row a.cached q).toOption = some w := hw
    cases hr : row a.cached q with
    | error e =>
        rw [hr] at hrow
        cases hrow
    | ok v =>
        rw [hr] at hrow
        obtain rfl := Option.some.inj hrow
        exact valid_row hcached hr
  current q w hw := valid_row hqueried hw
  position q c hc := by
    rw [LagAnswers.position, lagAnswers] at hc
    cases ha : a.committed with
    | none => simp [ha, Except.toOption] at hc
    | some rs =>
        simp only [ha, Except.toOption, Option.getD_some] at hc
        exact hcommitted rs ha _ (Table.mem_entries.mpr (Option.join_eq_some_iff.mp hc)) c rfl

/-- Three partitions. The cache tells the lag of the first. The second is not owned, and its low mark is not known. Of the
third the cache knows too little, for nothing is committed there. -/
def mixed : ScriptAnswers where
  partitions := .listed [0, 1, 2]
  committed := some [(⟨"ev", 0⟩, some 20)]
  assignment := some [⟨"ev", 0⟩, ⟨"ev", 2⟩]
  cached := some [(⟨"ev", 0⟩, some (.ofOffsets 10 50)), (⟨"ev", 2⟩, some (.ofOffsets 0 25))]
  queried := some [(⟨"ev", 0⟩, none), (⟨"ev", 1⟩, some ⟨none, some 40⟩), (⟨"ev", 2⟩, some (.ofOffsets 5 25))]

theorem sample_eq_reference_mixed :
    (mixed.lagAnswers [0, 1, 2]).Valid ∧
      ((LagProvider.make "ev" "g" 1000000000 180000000000).measure ({ answers := mixed } : ScriptedBroker)
        ⟨⟨1700000000, 0⟩, 0⟩).sample = .ok ⟨90, 3, ⟨1700000000, 0⟩⟩ := by
  have hvalid : (mixed.lagAnswers [0, 1, 2]).Valid :=
    valid_lagAnswers (by decide) (by decide) (by decide) _
  have hanswers : Answers (fun b : ScriptedBroker => b.answers = mixed) (mixed.lagAnswers [0, 1, 2]) := answers rfl
  obtain ⟨hsample, -, -⟩ := LagProvider.sample_eq_reference (b := { answers := mixed }) hanswers hvalid rfl
    (.make "ev" "g" 1000000000 180000000000) ⟨⟨1700000000, 0⟩, 0⟩
  exact ⟨hvalid, hsample⟩

end ScriptAnswers

end StreamTrigger
