import StreamTrigger.Rehearsal.Script
import StreamTrigger.Scaling.Provider
import Mathlib.Data.List.DropRight
import Mathlib.Data.List.Induction

namespace StreamTrigger

namespace PartitionCache

inductive Change where
  | stored (ps : List Partition) (time : Nat)
  | invalidated

def change (c : PartitionCache) : Change → PartitionCache
  | .stored ps time => c.store ps time
  | .invalidated => c.invalidate

def replay (c : PartitionCache) (xs : List Change) : PartitionCache := xs.foldl change c

theorem ttl_replay (c : PartitionCache) (xs : List Change) : (c.replay xs).ttl = c.ttl := by
  induction xs generalizing c with
  | nil => rfl
  | cons x xs ih =>
      refine (ih (c.change x)).trans ?_
      cases x <;> rfl

theorem get?_eq_some_iff {c : PartitionCache} {now : Nat} {ps : List Partition} :
    c.get? now = some ps ↔ ∃ t, c.loaded = some t ∧ c.partitions = ps ∧ ps ≠ [] ∧ now - t ≤ c.ttl := by
  rw [get?]
  cases c.loaded with
  | none => simp
  | some t =>
      simp only [Option.some.injEq, exists_eq_left', Option.ite_none_left_eq_some, Bool.or_eq_true,
        List.isEmpty_iff, decide_eq_true_eq, not_or, Nat.not_lt]
      constructor
      · rintro ⟨⟨hne, hage⟩, rfl⟩
        exact ⟨rfl, hne, hage⟩
      · rintro ⟨rfl, hne, hage⟩
        exact ⟨⟨hne, hage⟩, rfl⟩

/-- Only the last change shows, whatever the clock did. -/
theorem get?_replay (ttl : Nat) (xs : List Change) (now : Nat) (ps : List Partition) :
    (replay { ttl := ttl } xs).get? now = some ps ↔
      ∃ t, xs.getLast? = some (.stored ps t) ∧ ps ≠ [] ∧ now - t ≤ ttl := by
  rcases List.eq_nil_or_concat xs with rfl | ⟨xs, x, rfl⟩
  · simp [replay, get?]
  · have hreplay : replay { ttl := ttl } (xs ++ [x]) = (replay { ttl := ttl } xs).change x := by simp [replay]
    have httl : (replay { ttl := ttl } xs).ttl = ttl := ttl_replay _ xs
    rw [List.concat_eq_append, hreplay, get?_eq_some_iff, List.getLast?_concat]
    cases x with
    | invalidated => simp [change, invalidate]
    | stored ps' time =>
        simp only [change, store, httl, Option.some.injEq, Change.stored.injEq]
        constructor
        · rintro ⟨t, rfl, rfl, h⟩
          exact ⟨time, ⟨rfl, rfl⟩, h⟩
        · rintro ⟨t, ⟨rfl, rfl⟩, h⟩
          exact ⟨time, rfl, rfl, h⟩

end PartitionCache

/-- What a provider asks a broker first: the partitions of its topic, and then what is committed in them. -/
inductive Inquiry where
  | numbers (reply : Reply (List Int))
  | positions (qs : List Partition)
deriving DecidableEq, Repr

structure Overheard (β : Type) where
  broker : β
  heard : List Inquiry := []

namespace Overheard

variable {β : Type}

def note {α : Type} (b : Overheard β) (x : β × α) (is : List Inquiry) : Overheard β × α := (⟨x.1, b.heard ++ is⟩, x.2)

def pass {α : Type} (b : Overheard β) (x : β × α) : Overheard β × α := (⟨x.1, b.heard⟩, x.2)

instance [Broker β] : Broker (Overheard β) where
  poll b wait := b.pass (Broker.poll b.broker wait)
  commit b qs := b.pass (Broker.commit b.broker qs)
  store b q := b.pass (Broker.store b.broker q)
  pause b ps := b.pass (Broker.pause b.broker ps)
  resume b ps := b.pass (Broker.resume b.broker ps)
  assignment b := b.pass (Broker.assignment b.broker)
  committed b qs wait := b.note (Broker.committed b.broker qs wait) [.positions qs]
  cachedWatermarks b q := b.pass (Broker.cachedWatermarks b.broker q)
  queryWatermarks b q wait := b.pass (Broker.queryWatermarks b.broker q wait)
  partitions b topic wait :=
    let x := Broker.partitions b.broker topic wait
    b.note x [.numbers x.2]
  close b := ⟨Broker.close b.broker, b.heard⟩

end Overheard

namespace LagProvider

def named (topic : String) (ns : List Int) : List Partition := ns.map (fun n => ⟨topic, n⟩)

def next : Reply (List Partition) → List Inquiry
  | .ok (q :: qs) => [.positions (q :: qs)]
  | _ => []

section Heard

variable {β : Type} [Broker β] (p : LagProvider)

theorem heard_watermarks (b : Overheard β) (q : Partition) (owned : Bool) (committed : Option Int) :
    (p.watermarks b q owned committed).1.heard = b.heard := by
  rw [watermarks]
  split
  · simp only [Broker.cachedWatermarks, Overheard.pass]
    cases (Broker.cachedWatermarks b.broker q).2 with
    | broken f => rfl
    | failed e => rfl
    | ok w => dsimp only; split <;> rfl
  · rfl

theorem heard_lags (committed : Table Partition (Option Int)) (owned : List Partition) (b : Overheard β)
    (qs : List Partition) : (p.lags committed owned b qs).1.heard = b.heard := by
  induction qs generalizing b with
  | nil => rfl
  | cons q qs ih =>
      have hmarks := p.heard_watermarks b q (owned.contains q) (committed.get? q).join
      rw [lags]
      generalize p.watermarks b q (owned.contains q) (committed.get? q).join = x at hmarks
      obtain ⟨b', r⟩ := x
      cases r with
      | failed e => exact hmarks
      | broken f => exact hmarks
      | ok w =>
          dsimp only
          cases w.lag (committed.get? q).join with
          | error f => exact hmarks
          | ok lag =>
              have hrest := (ih b').trans hmarks
              dsimp only
              generalize p.lags committed owned b' qs = x at hrest
              obtain ⟨b'', r⟩ := x
              cases r <;> exact hrest

theorem heard_allLags (b : Overheard β) (qs : List Partition) :
    (p.allLags b qs).1.heard = b.heard ++ [.positions qs] := by
  simp only [allLags, Broker.committed, Broker.assignment, Overheard.note, Overheard.pass]
  generalize Broker.committed b.broker qs p.timeout = x
  obtain ⟨b', r⟩ := x
  cases r with
  | error e => rfl
  | ok committed =>
      dsimp only
      generalize Broker.assignment b' = x
      obtain ⟨b'', r⟩ := x
      cases r <;> exact p.heard_lags ..

theorem measure_listed (b : Overheard β) (now : Moment) :
    let x := p.partitions b now.instant
    (∃ last, (p.measure b now).provider = { x.1 with last := last }) ∧
      (p.measure b now).broker.heard = x.2.1.heard ++ next x.2.2 := by
  rw [measure]
  generalize p.partitions b now.instant = x
  obtain ⟨p', b', r⟩ := x
  cases r with
  | failed e => exact ⟨⟨_, rfl⟩, (List.append_nil _).symm⟩
  | broken f => exact ⟨⟨p'.last, rfl⟩, (List.append_nil _).symm⟩
  | ok qs =>
      cases qs with
      | nil => exact ⟨⟨_, rfl⟩, (List.append_nil _).symm⟩
      | cons q qs =>
          have hheard := p'.heard_allLags b' (q :: qs)
          dsimp only
          generalize p'.allLags b' (q :: qs) = x at hheard
          obtain ⟨b'', r⟩ := x
          cases r with
          | broken f => exact ⟨⟨p'.last, rfl⟩, hheard⟩
          | failed e => exact ⟨⟨_, rfl⟩, hheard⟩
          | ok ls => exact ⟨⟨_, rfl⟩, hheard⟩

inductive Refreshed (b : β) (now : Nat) : LagProvider → List Inquiry → Prop
  | kept {qs : List Partition} {last : Option LagSample} (hq : p.cache.get? now = some qs) :
      Refreshed b now { p with last := last } [.positions qs]
  | replaced {ns : List Int} {last : Option LagSample} (hq : p.cache.get? now = none)
      (hr : (Broker.partitions b p.topic p.timeout).2 = .ok ns) :
      Refreshed b now { p with last := last, cache := p.cache.store (named p.topic ns) now }
        (.numbers (.ok ns) :: next (.ok (named p.topic ns)))
  | refused {reply : Reply (List Int)} {last : Option LagSample} (hq : p.cache.get? now = none)
      (hr : (Broker.partitions b p.topic p.timeout).2 = reply) (hn : ∀ ns, reply ≠ .ok ns) :
      Refreshed b now { p with last := last } [.numbers reply]

theorem measure_refreshed (b : β) (now : Moment) :
    let m := p.measure (⟨b, []⟩ : Overheard β) now
    Refreshed p b now.instant m.provider m.broker.heard := by
  obtain ⟨⟨last, hlast⟩, hheard⟩ := p.measure_listed (⟨b, []⟩ : Overheard β) now
  dsimp only
  rw [hlast, hheard, partitions]
  cases hq : p.cache.get? now.instant with
  | some qs =>
      obtain ⟨-, -, -, hne, -⟩ := PartitionCache.get?_eq_some_iff.mp hq
      obtain ⟨q, qs, rfl⟩ := List.exists_cons_of_ne_nil hne
      exact .kept hq
  | none =>
      simp only [Broker.partitions, Overheard.note]
      cases hr : (Broker.partitions b p.topic p.timeout).2 with
      | failed e => exact .refused hq hr (by simp)
      | broken f => exact .refused hq hr (by simp)
      | ok ns => exact .replaced hq hr

end Heard

inductive Call (β : Type) where
  | invalidate
  | measure (b : β) (now : Moment)

def Call.instant? {β : Type} : Call β → Option Nat
  | .invalidate => none
  | .measure _ now => some now.instant

end LagProvider

/-- What is seen of the list of partitions: it is given up, or a broker is asked for it. -/
inductive Refresh where
  | dropped
  | fetched (time : Nat) (reply : Reply (List Int))
deriving DecidableEq, Repr

namespace Refresh

def list? : Refresh → Option (List Int)
  | fetched _ (.ok ns) => some ns
  | _ => none

def latest? (past : List Refresh) : Option (List Int) := (past.filterMap list?).getLast?

def since (past : List Refresh) : List Refresh := past.rtakeWhile (fun x => x ≠ dropped)

/-- A list with partitions has come in since then, no longer ago than it is good for. -/
def Fresh (ttl now : Nat) (past : List Refresh) : Prop :=
  ∃ time ns, fetched time (.ok ns) ∈ since past ∧ ns ≠ [] ∧ now - time ≤ ttl

variable (past : List Refresh) (time : Nat) (reply : Reply (List Int))

theorem since_fetched : since (past ++ [fetched time reply]) = since past ++ [fetched time reply] :=
  List.rtakeWhile_concat_pos _ _ _ (by simp)

theorem since_dropped : since (past ++ [dropped]) = [] := List.rtakeWhile_concat_neg _ _ _ (by simp)

end Refresh

def Inquiry.refresh? (now : Nat) : Inquiry → Option Refresh
  | .numbers reply => some (.fetched now reply)
  | .positions _ => none

theorem LagProvider.refresh?_next (now : Nat) (reply : Reply (List Partition)) :
    (next reply).filterMap (Inquiry.refresh? now) = [] := by
  rcases reply with (_ | _) | _ | _ <;> rfl

structure ListHistory where
  provider : LagProvider
  past : List Refresh := []

namespace ListHistory

open LagProvider Refresh

variable {β : Type} [Broker β]

def call (s : ListHistory) : Call β → ListHistory
  | .invalidate => ⟨s.provider.invalidate, s.past ++ [.dropped]⟩
  | .measure b now =>
      let m := s.provider.measure (⟨b, []⟩ : Overheard β) now
      ⟨m.provider, s.past ++ m.broker.heard.filterMap (Inquiry.refresh? now.instant)⟩

def run (s : ListHistory) (cs : List (Call β)) : ListHistory := cs.foldl call s

/-- What the cache holds is the list that came in last. Other lists that came in since it was given up are empty, or were
no longer good when this one came. -/
structure Kept (p : LagProvider) (instants : List Nat) (s : ListHistory) : Prop where
  topic : s.provider.topic = p.topic
  timeout : s.provider.timeout = p.timeout
  ttl : s.provider.cache.ttl = p.cache.ttl
  times : ∀ t reply, .fetched t reply ∈ s.past → t ∈ instants
  unloaded : s.provider.cache.loaded = none → ∀ t ns, .fetched t (.ok ns) ∉ since s.past
  loaded : ∀ t, s.provider.cache.loaded = some t → ∃ ns, s.provider.cache.partitions = named p.topic ns ∧
    latest? s.past = some ns ∧ .fetched t (.ok ns) ∈ since s.past ∧
    ∀ t' ns', .fetched t' (.ok ns') ∈ since s.past → ns' = [] ∨ (t' = t ∧ ns' = ns) ∨ p.cache.ttl < t - t'

namespace Kept

variable {p : LagProvider} {now : Nat} {instants : List Nat} {s : ListHistory}

theorem get?_of_fresh (h : s.Kept p instants) (hnow : ∀ t ∈ instants, t ≤ now) (hf : Fresh p.cache.ttl now s.past) :
    ∃ ns, latest? s.past = some ns ∧ s.provider.cache.get? now = some (named p.topic ns) := by
  obtain ⟨t', ns', hmem, hne, hage⟩ := hf
  cases hl : s.provider.cache.loaded with
  | none => exact absurd hmem (h.unloaded hl t' ns')
  | some t =>
      obtain ⟨ns, hps, hlatest, hin, hothers⟩ := h.loaded t hl
      have ht : t ≤ now := hnow t (h.times t (.ok ns) ((List.rtakeWhile_suffix _ _).subset hin))
      rcases hothers t' ns' hmem with rfl | ⟨rfl, rfl⟩ | hold
      · exact absurd rfl hne
      · refine ⟨ns', hlatest, PartitionCache.get?_eq_some_iff.mpr ⟨t', hl, hps, by simpa [named] using hne, ?_⟩⟩
        rw [h.ttl]
        exact hage
      · omega

theorem fresh_of_get? (h : s.Kept p instants) {qs : List Partition} (hq : s.provider.cache.get? now = some qs) :
    Fresh p.cache.ttl now s.past := by
  obtain ⟨t, hl, rfl, hne, hage⟩ := PartitionCache.get?_eq_some_iff.mp hq
  obtain ⟨ns, hps, -, hin, -⟩ := h.loaded t hl
  refine ⟨t, ns, hin, ?_, h.ttl ▸ hage⟩
  rintro rfl
  exact hne hps

theorem not_fresh_of_get? (h : s.Kept p instants) (hnow : ∀ t ∈ instants, t ≤ now)
    (hq : s.provider.cache.get? now = none) : ¬ Fresh p.cache.ttl now s.past := by
  intro hf
  obtain ⟨ns, -, hget⟩ := h.get?_of_fresh hnow hf
  rw [hq] at hget
  cases hget

theorem made (hp : p.cache.loaded = none) : Kept p [] ⟨p, []⟩ where
  topic := rfl
  timeout := rfl
  ttl := rfl
  times := by simp
  unloaded := by simp [since]
  loaded := by simp [hp]

theorem dropped (h : s.Kept p instants) : Kept p instants ⟨s.provider.invalidate, s.past ++ [.dropped]⟩ where
  topic := h.topic
  timeout := h.timeout
  ttl := h.ttl
  times t reply hmem := h.times t reply (by simpa using hmem)
  unloaded _ t ns := by simp [since_dropped]
  loaded t ht := by simp [invalidate, PartitionCache.invalidate] at ht

theorem times_fetched (h : s.Kept p instants) {t : Nat} {reply r : Reply (List Int)}
    (ht : .fetched t r ∈ s.past ++ [.fetched now reply]) : t ∈ instants ++ [now] := by
  rcases List.mem_append.mp ht with ht | ht
  · exact List.mem_append_left _ (h.times t r ht)
  · obtain ⟨rfl, -⟩ : t = now ∧ r = reply := by simpa using ht
    exact List.mem_append_right _ (List.mem_singleton_self _)

theorem kept (h : s.Kept p instants) (now : Nat) (last : Option LagSample) :
    Kept p (instants ++ [now]) ⟨{ s.provider with last := last }, s.past⟩ :=
  ⟨h.topic, h.timeout, h.ttl, fun t r ht => List.mem_append_left _ (h.times t r ht), h.unloaded, h.loaded⟩

theorem replaced (h : s.Kept p instants) (hnow : ∀ t ∈ instants, t ≤ now) (hq : s.provider.cache.get? now = none)
    (ns : List Int) (last : Option LagSample) : Kept p (instants ++ [now])
      ⟨{ s.provider with last := last, cache := s.provider.cache.store (named p.topic ns) now },
        s.past ++ [.fetched now (.ok ns)]⟩ where
  topic := h.topic
  timeout := h.timeout
  ttl := h.ttl
  times t r := h.times_fetched
  unloaded hn := by simp [PartitionCache.store] at hn
  loaded t ht := by
    obtain rfl : now = t := by simpa [PartitionCache.store] using ht
    refine ⟨ns, rfl, by simp [latest?, list?], by simp [since_fetched], fun t' ns' hmem => ?_⟩
    rw [since_fetched, List.mem_append] at hmem
    rcases hmem with hmem | hmem
    · by_cases hne : ns' = []
      · exact .inl hne
      · -- a list that was still good would not have been replaced
        have hstale : ¬ now - t' ≤ p.cache.ttl := fun hage =>
          h.not_fresh_of_get? hnow hq ⟨t', ns', hmem, hne, hage⟩
        exact .inr (.inr (Nat.lt_of_not_le hstale))
    · obtain ⟨rfl, rfl⟩ : t' = now ∧ ns' = ns := by simpa using hmem
      exact .inr (.inl ⟨rfl, rfl⟩)

theorem refused (h : s.Kept p instants) {reply : Reply (List Int)} (hn : ∀ ns, reply ≠ .ok ns)
    (last : Option LagSample) : Kept p (instants ++ [now])
      ⟨{ s.provider with last := last }, s.past ++ [.fetched now reply]⟩ := by
  have hmem (t : Nat) (ns : List Int) :
      .fetched t (.ok ns) ∈ since (s.past ++ [.fetched now reply]) ↔ .fetched t (.ok ns) ∈ since s.past := by
    simp [since_fetched, (hn ns).symm]
  have hlatest : latest? (s.past ++ [.fetched now reply]) = latest? s.past := by
    cases reply with
    | ok ns => exact absurd rfl (hn ns)
    | failed e | broken f => simp [latest?, list?]
  refine ⟨h.topic, h.timeout, h.ttl, fun t r => h.times_fetched, fun hl t ns => ?_, fun t ht => ?_⟩
  · rw [hmem]
    exact h.unloaded hl t ns
  · simp only [hmem, hlatest]
    exact h.loaded t ht

theorem call (h : s.Kept p instants) (c : Call β) (hclock : (instants ++ c.instant?.toList).Pairwise (· ≤ ·)) :
    (s.call c).Kept p (instants ++ c.instant?.toList) := by
  cases c with
  | invalidate =>
      rw [Call.instant?, Option.toList_none, List.append_nil]
      exact h.dropped
  | measure b now =>
      have hnow : ∀ t ∈ instants, t ≤ now.instant := fun t ht =>
        (List.pairwise_append.mp hclock).2.2 t ht now.instant (by simp [Call.instant?])
      have hr := s.provider.measure_refreshed b now
      simp only [ListHistory.call, Call.instant?, Option.toList_some]
      generalize s.provider.measure (⟨b, []⟩ : Overheard β) now = m at hr
      obtain ⟨p', ⟨b', heard⟩, sample, notices⟩ := m
      cases hr with
      | @kept qs last hq => simpa [List.filterMap_cons, Inquiry.refresh?] using h.kept now.instant last
      | @replaced ns last hq hr =>
          simpa [List.filterMap_cons, Inquiry.refresh?, refresh?_next, h.topic] using h.replaced hnow hq ns last
      | @refused reply last hq hr hn => simpa [Inquiry.refresh?] using h.refused hn last

theorem run {cs : List (Call β)} (hp : p.cache.loaded = none) (hclock : (cs.filterMap Call.instant?).Pairwise (· ≤ ·)) :
    (ListHistory.run ⟨p, []⟩ cs).Kept p (cs.filterMap Call.instant?) := by
  induction cs using List.reverseRecOn with
  | nil => exact made hp
  | append_singleton cs c ih =>
      have hlast : [c].filterMap Call.instant? = c.instant?.toList := by cases h : c.instant? <;> simp [h]
      rw [List.filterMap_append, hlast] at hclock ⊢
      rw [ListHistory.run, List.foldl_append]
      exact (ih (List.pairwise_append.mp hclock).1).call c hclock

end Kept

/-- A sample is made of the list that came in last, as long as this has partitions, was not given up, and is not too old;
the broker is not asked for another then. Otherwise the broker is asked, once, and the sample is made of its answer; if
this is no list, the cache stays as it is. A cache by itself tells what was put in last, unless it was given up or grew
too old, and a clock that went back makes nothing older. -/
theorem asks_iff_not_fresh (topic group : String) (timeout ttl : Nat) (cs : List (Call β)) (b : β) (now : Moment)
    (hclock : ((cs ++ [Call.measure b now]).filterMap Call.instant?).Pairwise (· ≤ ·)) :
    let s := run ⟨.make topic group timeout ttl, []⟩ cs
    let m := s.provider.measure (⟨b, []⟩ : Overheard β) now
    let reply := (Broker.partitions b topic timeout).2
    ((∃ r, .numbers r ∈ m.broker.heard) ↔ ¬ Fresh ttl now.instant s.past) ∧
    (Fresh ttl now.instant s.past →
      ∃ ns, latest? s.past = some ns ∧ m.broker.heard = [.positions (named topic ns)]) ∧
    (¬ Fresh ttl now.instant s.past →
      (∀ ns, reply = .ok ns → m.broker.heard = .numbers reply :: next (.ok (named topic ns))) ∧
      ((∀ ns, reply ≠ .ok ns) → m.broker.heard = [.numbers reply] ∧ m.provider.cache = s.provider.cache)) ∧
    ∀ (xs : List PartitionCache.Change) (time : Nat) (ps : List Partition),
      (PartitionCache.replay { ttl := ttl } xs).get? time = some ps ↔
        ∃ t, xs.getLast? = some (.stored ps t) ∧ ps ≠ [] ∧ time - t ≤ ttl := by
  intro s m reply
  rw [List.filterMap_append] at hclock
  obtain ⟨hbefore, -, hlast⟩ := List.pairwise_append.mp hclock
  have hk : s.Kept (.make topic group timeout ttl) (cs.filterMap Call.instant?) := Kept.run rfl hbefore
  have hnow : ∀ t ∈ cs.filterMap Call.instant?, t ≤ now.instant := fun t ht =>
    hlast t ht now.instant (by simp [Call.instant?])
  have hr : Refreshed s.provider b now.instant m.provider m.broker.heard := s.provider.measure_refreshed b now
  have hreply : (Broker.partitions b s.provider.topic s.provider.timeout).2 = reply := by rw [hk.topic, hk.timeout]; rfl
  rw [← and_assoc, ← and_assoc]
  refine ⟨?_, PartitionCache.get?_replay ttl⟩
  generalize m.provider = p, m.broker.heard = heard at hr ⊢
  cases hr with
  | @kept qs last hq =>
      have hf : Fresh ttl now.instant s.past := hk.fresh_of_get? hq
      obtain ⟨ns, hlatest, hget⟩ := hk.get?_of_fresh hnow hf
      obtain rfl : qs = named topic ns := Option.some.inj (hq.symm.trans hget)
      exact ⟨⟨by simp [hf], fun _ => ⟨ns, hlatest, rfl⟩⟩, fun hn => absurd hf hn⟩
  | @replaced ns last hq hr =>
      have hn : ¬ Fresh ttl now.instant s.past := hk.not_fresh_of_get? hnow hq
      rw [hreply] at hr
      refine ⟨⟨by simp [hn], fun hf => absurd hf hn⟩, fun _ => ⟨fun ns' hns' => ?_, fun hnone => absurd hr (hnone ns)⟩⟩
      obtain rfl : ns = ns' := by simpa [hr] using hns'
      rw [hr, hk.topic]
      rfl
  | @refused reply' last hq hr hnone =>
      have hn : ¬ Fresh ttl now.instant s.past := hk.not_fresh_of_get? hnow hq
      obtain rfl : reply = reply' := hreply.symm.trans hr
      exact ⟨⟨by simp [hn], fun hf => absurd hf hn⟩, fun _ => ⟨fun ns hns => absurd hns (hnone ns), fun _ => ⟨rfl, rfl⟩⟩⟩

def listing : ScriptedBroker := { answers := { partitions := .listed [0, 1] } }

def refusing : ScriptedBroker := { answers := { partitions := .refused } }

def midnight (n : Nat) : Moment := ⟨⟨0, 0⟩, n⟩

/-- A list is good to the very end of its time. The one that was given up before is out of play. -/
def lookups : List (Call ScriptedBroker) :=
  [.measure listing (midnight 1), .invalidate, .measure refusing (midnight 2), .measure listing (midnight 3)]

theorem asks_nothing_at_ttl :
    ((lookups ++ [Call.measure refusing (midnight 8)]).filterMap Call.instant?).Pairwise (· ≤ ·) ∧
      (((run ⟨.make "ev" "g" 1 5, []⟩ lookups).provider.measure (⟨refusing, []⟩ : Overheard ScriptedBroker)
        (midnight 8)).broker.heard = [.positions [⟨"ev", 0⟩, ⟨"ev", 1⟩]]) := by
  have hclock : ((lookups ++ [Call.measure refusing (midnight 8)]).filterMap Call.instant?).Pairwise (· ≤ ·) := by
    decide
  have hfresh : Fresh 5 8 (run ⟨.make "ev" "g" 1 5, []⟩ lookups).past := ⟨3, [0, 1], by decide +kernel, by simp, by simp⟩
  obtain ⟨ns, hns, hheard⟩ := (asks_iff_not_fresh "ev" "g" 1 5 lookups refusing (midnight 8) hclock).2.1 hfresh
  obtain rfl : ns = [0, 1] := Option.some.inj (hns.symm.trans rfl)
  exact ⟨hclock, hheard⟩

end ListHistory

end StreamTrigger
