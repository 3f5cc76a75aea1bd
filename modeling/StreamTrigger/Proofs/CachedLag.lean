import StreamTrigger.Proofs.Sampling

namespace StreamTrigger

/-- What a broker tells a provider. An assignment or a cached entry that cannot be read is `none`. -/
structure LagFacts where
  numbers : List Int
  committed : Table Partition (Option Int)
  owned : Option (List Partition)
  cached : Partition → Option Watermarks
  current : Partition → Watermarks

/-- Who asks a broker in one of these states is told these facts, and leaves it in such a state. -/
structure Tells {β : Type} [Broker β] (S : β → Prop) (x : LagFacts) : Prop where
  partitions : ∀ b topic timeout, S b →
    S (Broker.partitions b topic timeout).1 ∧ (Broker.partitions b topic timeout).2 = .ok x.numbers
  committed : ∀ b qs timeout, S b →
    S (Broker.committed b qs timeout).1 ∧ (Broker.committed b qs timeout).2 = .ok x.committed
  assignment : ∀ b, S b → S (Broker.assignment b).1 ∧ (Broker.assignment b).2.toOption = x.owned
  cached : ∀ b q, S b → S (Broker.cachedWatermarks b q).1 ∧
    match x.cached q with
    | some w => (Broker.cachedWatermarks b q).2 = .ok w
    | none => ∃ e, (Broker.cachedWatermarks b q).2 = .failed e
  current : ∀ b q timeout, S b →
    S (Broker.queryWatermarks b q timeout).1 ∧ (Broker.queryWatermarks b q timeout).2 = .ok (x.current q)

namespace Watermarks

structure Within (w u : Watermarks) : Prop where
  low : ∀ v ∈ w.low, v ∈ u.low
  high : ∀ v ∈ w.high, v ∈ u.high

/-- Retention has passed the committed position, or the beginning where there is none, and left records behind it. -/
def Outran (w : Watermarks) (committed : Option Int) : Prop :=
  max (committed.getD 0) 0 < min (w.low.getD 0) (w.high.getD 0)

instance (w : Watermarks) (committed : Option Int) : Decidable (w.Outran committed) := inferInstanceAs (Decidable (_ < _))

variable {w : Watermarks} {committed : Option Int}

theorem lag_nonneg (h : w.Valid) {n : Int} (hn : w.lag committed = .ok n) : 0 ≤ n := by
  cases committed with
  | none =>
      rw [lag_uncommitted h] at hn
      cases hn
      exact Int.le_max_right ..
  | some c =>
      rw [lag_committed h] at hn
      cases hc : Word.sub (w.high.getD 0) c with
      | error f => simp [hc, Except.map] at hn
      | ok behind =>
          simp only [hc, Except.map, Except.ok.injEq] at hn
          omega

/-- Without its low mark a partition gives the same fault, or a lag that is no smaller: it is greater exactly where
retention has deleted records behind the committed position. -/
theorem lag_without_low (h : w.Valid) (committed : Option Int) :
    (∃ f, { w with low := none }.lag committed = .error f ∧ w.lag committed = .error f) ∨
      ∃ m n, { w with low := none }.lag committed = .ok m ∧ w.lag committed = .ok n ∧ n ≤ m ∧
        (m = n ↔ ¬ w.Outran committed) := by
  have hlow := getD_word h.low
  have hhigh := getD_word h.high
  have hu : { w with low := none }.Valid := ⟨by simp, h.high⟩
  cases committed with
  | none =>
      refine .inr ⟨_, _, lag_uncommitted hu, lag_uncommitted h, ?_, ?_⟩
      · dsimp only [Option.getD_none]
        omega
      · dsimp only [Outran, Option.getD_none]
        omega
  | some c =>
      rw [lag_committed hu, lag_committed h]
      by_cases hfits : Word.Fits (w.high.getD 0 - c)
      · have hc : Word.sub (w.high.getD 0) c = .ok (w.high.getD 0 - c) := if_pos hfits
        rw [hc]
        refine .inr ⟨_, _, rfl, rfl, ?_, ?_⟩
        · dsimp only [Option.getD_none]
          omega
        · dsimp only [Outran, Option.getD_none, Option.getD_some]
          omega
      · have hc : Word.sub (w.high.getD 0) c = .error .subtractOverflow := if_neg hfits
        rw [hc]
        exact .inl ⟨_, rfl, rfl⟩

end Watermarks

namespace LagFacts

open LagProvider (trusts)

def position (x : LagFacts) (q : Partition) : Option Int := (x.committed.get? q).join

def unowned (x : LagFacts) : LagFacts := { x with owned := some [] }

def standIn (x : LagFacts) (q : Partition) : Option Watermarks :=
  if (x.owned.getD []).contains q then (x.cached q).filter (fun w => trusts w (x.position q)) else none

def lag (x : LagFacts) (q : Partition) : Except Fault Int :=
  ((x.standIn q).getD (x.current q)).lag (x.position q)

def lags (x : LagFacts) : List Partition → Except Fault (List (Partition × Int))
  | [] => .ok []
  | q :: qs =>
      match x.lag q with
      | .error f => .error f
      | .ok n => (x.lags qs).map ((q, n) :: ·)

/-- The cache knows nothing but what the broker would tell. -/
def Coherent (x : LagFacts) : Prop := ∀ q w, x.cached q = some w → w.Within (x.current q)

def Valid (x : LagFacts) : Prop := ∀ q, (x.current q).Valid

/-- Cached watermarks without a low mark stand in for those of the broker. -/
def Blind (x : LagFacts) (q : Partition) : Prop := ∃ w, x.standIn q = some w ∧ w.low = none

/-- They do so where retention has outrun the group. -/
def Overcounts (x : LagFacts) (q : Partition) : Prop := x.Blind q ∧ (x.current q).Outran (x.position q)

def answers (x : LagFacts) : LagAnswers := ⟨.ok x.numbers, .ok x.committed, x.owned, x.cached, fun q => .ok (x.current q)⟩

theorem marks_answers (x : LagFacts) (q : Partition) :
    x.answers.marks q = .ok ((x.standIn q).getD (x.current q)) := by
  have hstandIn : x.answers.standIn q = x.standIn q := rfl
  rw [x.answers.marks_eq, hstandIn]
  cases x.standIn q <;> rfl

theorem lags_answers (x : LagFacts) (qs : List Partition) :
    x.answers.lags qs = match x.lags qs with
      | .ok ls => .ok ls
      | .error f => .broken f := by
  induction qs with
  | nil => rfl
  | cons q qs ih =>
      have hposition : x.answers.position q = x.position q := rfl
      rw [LagAnswers.lags, LagFacts.lags, marks_answers, LagFacts.lag, hposition]
      dsimp only
      cases ((x.standIn q).getD (x.current q)).lag (x.position q) with
      | error f => rfl
      | ok n =>
          dsimp only
          rw [ih]
          cases x.lags qs <;> rfl

variable {x : LagFacts}

theorem lag_unowned (x : LagFacts) (q : Partition) : x.unowned.lag q = (x.current q).lag (x.position q) := rfl

theorem standIn_spec {q : Partition} {w : Watermarks} (h : x.standIn q = some w) :
    x.cached q = some w ∧ w.high.isSome := by
  rw [standIn] at h
  split at h
  · obtain ⟨hw, htrust⟩ := Option.filter_eq_some_iff.mp h
    simp only [trusts, Bool.and_eq_true] at htrust
    exact ⟨hw, htrust.1⟩
  · cases h

theorem Coherent.standIn (hx : x.Coherent) {q : Partition} {w : Watermarks} (h : x.standIn q = some w) :
    (w.low ≠ none ∧ w = x.current q) ∨ w.low = none ∧ w = { x.current q with low := none } := by
  obtain ⟨hcached, hhigh⟩ := standIn_spec h
  have hwithin := hx q w hcached
  obtain ⟨v, hv⟩ := Option.isSome_iff_exists.mp hhigh
  have hhigh : (x.current q).high = w.high := (hwithin.high v hv).trans hv.symm
  obtain ⟨low, high⟩ := w
  cases low with
  | none => exact .inr ⟨rfl, show Watermarks.mk none high = ⟨none, (x.current q).high⟩ by rw [hhigh]⟩
  | some l =>
      have hlow : (x.current q).low = some l := hwithin.low l rfl
      exact .inl ⟨by simp, show Watermarks.mk (some l) high = ⟨(x.current q).low, (x.current q).high⟩ by rw [hlow, hhigh]⟩

theorem Coherent.lag_eq (hx : x.Coherent) {q : Partition} (hs : ¬ x.Blind q) : x.lag q = x.unowned.lag q := by
  rw [lag_unowned, LagFacts.lag]
  cases hw : x.standIn q with
  | none => rfl
  | some w =>
      rcases hx.standIn hw with ⟨-, he⟩ | ⟨hlow, -⟩
      · rw [he, Option.getD_some]
      · exact absurd ⟨w, hw, hlow⟩ hs

/-- The lag of a partition as it is measured, against that by the broker. -/
theorem Coherent.lag (hx : x.Coherent) (hv : x.Valid) (q : Partition) :
    (∃ f, x.lag q = .error f ∧ x.unowned.lag q = .error f) ∨
      ∃ m n, x.lag q = .ok m ∧ x.unowned.lag q = .ok n ∧ 0 ≤ n ∧ n ≤ m ∧ (m = n ↔ ¬ x.Overcounts q) := by
  by_cases hs : x.Blind q
  · obtain ⟨w, hw, hlow⟩ := id hs
    have hwithout : w = { x.current q with low := none } := by
      rcases hx.standIn hw with ⟨hne, -⟩ | ⟨-, he⟩
      · exact absurd hlow hne
      · exact he
    have hlag : x.lag q = { x.current q with low := none }.lag (x.position q) := by
      rw [LagFacts.lag, hw, hwithout, Option.getD_some]
    have hover : x.Overcounts q ↔ (x.current q).Outran (x.position q) := by simp [Overcounts, hs]
    rw [hlag, lag_unowned, hover]
    rcases Watermarks.lag_without_low (hv q) (x.position q) with hfault | ⟨m, n, hm, hn, hle, hiff⟩
    · exact .inl hfault
    · exact .inr ⟨m, n, hm, hn, Watermarks.lag_nonneg (hv q) hn, hle, hiff⟩
  · have hover : ¬ x.Overcounts q := fun h => hs h.1
    rw [hx.lag_eq hs]
    cases hn : x.unowned.lag q with
    | error f => exact .inl ⟨f, rfl, rfl⟩
    | ok n => exact .inr ⟨n, n, rfl, rfl, Watermarks.lag_nonneg (hv q) hn, Int.le_refl n, by simp [hover]⟩

theorem Coherent.lags_eq (hx : x.Coherent) {qs : List Partition} (hs : ∀ q ∈ qs, ¬ x.Blind q) :
    x.lags qs = x.unowned.lags qs := by
  induction qs with
  | nil => rfl
  | cons q qs ih =>
      obtain ⟨hq, hqs⟩ := List.forall_mem_cons.mp hs
      rw [LagFacts.lags, LagFacts.lags, hx.lag_eq hq, ih hqs]

def sum (ls : List (Partition × Int)) : Int := ls.foldr (fun l n => l.2 + n) 0

theorem sum_cons (l : Partition × Int) (ls : List (Partition × Int)) : sum (l :: ls) = l.2 + sum ls := rfl

theorem sum_eq (ls : List (Partition × Int)) : sum ls = (ls.map Prod.snd).sum := by
  induction ls with
  | nil => rfl
  | cons l ls ih => rw [sum_cons, ih, List.map_cons, List.sum_cons]

theorem total_eq {ls : List (Partition × Int)} (h : ∀ l ∈ ls, 0 ≤ l.2) :
    LagProvider.total ls = min Word.greatest (sum ls) := by
  rw [LagProvider.total_eq_sum h, sum_eq, Int.min_comm]

theorem Coherent.lags (hx : x.Coherent) (hv : x.Valid) (qs : List Partition) :
    (∃ f, x.lags qs = .error f ∧ x.unowned.lags qs = .error f) ∨
      ∃ ms ns, x.lags qs = .ok ms ∧ x.unowned.lags qs = .ok ns ∧ (∀ l ∈ ms, 0 ≤ l.2) ∧ (∀ l ∈ ns, 0 ≤ l.2) ∧
        sum ns ≤ sum ms ∧ (sum ms = sum ns ↔ ∀ q ∈ qs, ¬ x.Overcounts q) := by
  induction qs with
  | nil => exact .inr ⟨[], [], rfl, rfl, by simp, by simp, Int.le_refl _, by simp⟩
  | cons q qs ih =>
      rw [LagFacts.lags, LagFacts.lags]
      rcases hx.lag hv q with ⟨f, hm, hn⟩ | ⟨m, n, hm, hn, hnonneg, hle, hiff⟩ <;> rw [hm, hn]
      · exact .inl ⟨f, rfl, rfl⟩
      · rcases ih with ⟨f, hms, hns⟩ | ⟨ms, ns, hms, hns, hmpos, hnpos, hsum, hall⟩ <;> rw [hms, hns]
        · exact .inl ⟨f, rfl, rfl⟩
        · refine .inr ⟨(q, m) :: ms, (q, n) :: ns, rfl, rfl, ?_, ?_, ?_, ?_⟩
          · exact List.forall_mem_cons.mpr ⟨Int.le_trans hnonneg hle, hmpos⟩
          · exact List.forall_mem_cons.mpr ⟨hnonneg, hnpos⟩
          · simp only [sum_cons] at hsum ⊢
            omega
          · rw [List.forall_mem_cons, ← hiff, ← hall]
            simp only [sum_cons] at hsum ⊢
            omega

end LagFacts

theorem Tells.answers {β : Type} [Broker β] {S : β → Prop} {x : LagFacts} (h : Tells S x) : Answers S x.answers :=
  ⟨h.partitions, h.committed, h.assignment, h.cached, h.current⟩

namespace LagProvider

variable {β : Type} [Broker β] {S : β → Prop} {x : LagFacts} {p : LagProvider} {b : β}

def reads (p : LagProvider) (x : LagFacts) (now : Nat) : List Partition :=
  (p.cache.get? now).getD (x.numbers.map (fun n => ⟨p.topic, n⟩))

theorem measure_told (h : Tells S x) (hb : S b) (p : LagProvider) (now : Moment) :
    (p.measure b now).sample = (x.lags (p.reads x now.instant)).map (fun ls =>
      ⟨total ls, (min (p.reads x now.instant).length greatestCount : Nat), now.time⟩) := by
  have hlisted : x.answers.listed p now.instant = .ok (p.reads x now.instant) := by
    rw [LagAnswers.listed, reads]
    cases p.cache.get? now.instant <;> rfl
  rw [measure_answered h.answers hb, hlisted]
  cases p.reads x now.instant with
  | nil => rfl
  | cons q qs =>
      have hcommitted : x.answers.committed = .ok x.committed := rfl
      rw [outcome, hcommitted, x.lags_answers]
      cases x.lags (q :: qs) <;> rfl

open LagFacts in
/-- A sample from the cache is that of the broker alone as long as the cached entries that are used tell the low mark.
Without it the sample is still the same, unless retention has deleted records behind the committed position of the
partition. Then the lag is greater, up to the greatest word. -/
theorem sample_by_cache_iff {γ : Type} [Broker γ] {T : γ → Prop} {c : γ} (h : Tells S x) (h' : Tells T x.unowned)
    (hx : x.Coherent) (hb : S b) (hc : T c) (p : LagProvider) (now : Moment) :
    ((∀ q ∈ p.reads x now.instant, ¬ x.Blind q) → (p.measure b now).sample = (p.measure c now).sample) ∧
      (x.Valid →
        ((∀ q ∈ p.reads x now.instant, ¬ x.Overcounts q) → (p.measure b now).sample = (p.measure c now).sample) ∧
          ∀ s, (p.measure c now).sample = .ok s → ∃ s', (p.measure b now).sample = .ok s' ∧ s.lag ≤ s'.lag ∧
            (s.lag < Word.greatest → (s'.lag = s.lag ↔ ∀ q ∈ p.reads x now.instant, ¬ x.Overcounts q))) := by
  have hreads : p.reads x.unowned now.instant = p.reads x now.instant := rfl
  rw [measure_told h hb, measure_told h' hc, hreads]
  refine ⟨fun hsees => by rw [hx.lags_eq hsees], fun hv => ?_⟩
  rcases hx.lags hv (p.reads x now.instant) with ⟨f, hm, hn⟩ | ⟨ms, ns, hm, hn, hmpos, hnpos, hle, hiff⟩
  · rw [hm, hn]
    exact ⟨fun _ => rfl, fun s hs => by cases hs⟩
  · have hms := total_eq hmpos
    have hns := total_eq hnpos
    rw [hm, hn]
    constructor
    · intro hnone
      have htotal : total ms = total ns := by rw [hms, hns, hiff.mpr hnone]
      simp only [Except.map, htotal]
    · intro s hs
      obtain rfl := Except.ok.inj hs
      refine ⟨_, rfl, ?_, fun hroom => ?_⟩
      · dsimp only
        omega
      · rw [← hiff]
        dsimp only at hroom ⊢
        omega

end LagProvider

structure LagScript where
  numbers : List Int
  committed : List (Partition × Option Int)
  owned : Option (List Partition)
  cached : List (Partition × Watermarks)
  current : List (Partition × Watermarks)

namespace LagScript

def row (rows : List (Partition × Watermarks)) (q : Partition) : Watermarks :=
  ((rows.find? (fun r => r.1 = q)).map Prod.snd).getD .unset

def facts (l : LagScript) : LagFacts where
  numbers := l.numbers
  committed := .ofList l.committed
  owned := l.owned
  cached q := some (row l.cached q)
  current := row l.current

def answers (l : LagScript) : ScriptAnswers where
  partitions := .listed l.numbers
  committed := some l.committed
  assignment := l.owned
  cached := some (l.cached.map (fun r => (r.1, some r.2)))
  queried := some (l.current.map (fun r => (r.1, some r.2)))

theorem watermarks_rows (rows : List (Partition × Watermarks)) (q : Partition) :
    ScriptedBroker.watermarks (some (rows.map (fun r => (r.1, some r.2)))) q = .ok (row rows q) := by
  rw [ScriptedBroker.watermarks, row]
  have hfind : (rows.map (fun r => (r.1, some r.2))).find? (fun r => r.1 = q) =
      (rows.find? (fun r => r.1 = q)).map (fun r => (r.1, some r.2)) := by
    rw [List.find?_map]
    rfl
  rw [hfind]
  cases rows.find? (fun r => r.1 = q) <;> rfl

theorem tells (l : LagScript) : Tells (fun b : ScriptedBroker => b.answers = l.answers) l.facts where
  partitions b topic timeout hb := ⟨hb, by simp only [Broker.partitions, hb, answers, facts]⟩
  committed b qs timeout hb := ⟨hb, by simp only [Broker.committed, hb, answers, facts]⟩
  assignment b hb := by
    refine ⟨hb, ?_⟩
    simp only [Broker.assignment, hb, answers, facts]
    cases l.owned <;> rfl
  cached b q hb := ⟨hb, by simp only [Broker.cachedWatermarks, hb, answers, facts, watermarks_rows]⟩
  current b q timeout hb := ⟨hb, by simp only [Broker.queryWatermarks, hb, answers, facts, watermarks_rows]⟩

theorem valid_row {rows : List (Partition × Watermarks)} (h : ∀ r ∈ rows, r.2.Valid) (q : Partition) : (row rows q).Valid := by
  rw [row]
  cases hr : rows.find? (fun r => r.1 = q) with
  | none => exact ⟨by simp [Watermarks.unset], by simp [Watermarks.unset]⟩
  | some r => exact h r (List.mem_of_find?_eq_some hr)

def deleted (committed : Option Int) : LagScript where
  numbers := [0]
  committed := [(⟨"ev", 0⟩, committed)]
  owned := some [⟨"ev", 0⟩]
  cached := [(⟨"ev", 0⟩, ⟨none, some 100⟩)]
  current := [(⟨"ev", 0⟩, .ofOffsets 40 100)]

theorem valid_deleted (committed : Option Int) : (deleted committed).facts.Valid := valid_row (by
  intro r hr
  obtain rfl := List.mem_singleton.mp hr
  constructor <;> simp [Watermarks.ofOffsets, Word.greatest])

theorem coherent_deleted (committed : Option Int) : (deleted committed).facts.Coherent := by
  rintro q w hw
  obtain rfl := Option.some.inj hw
  by_cases hq : (⟨"ev", 0⟩ : Partition) = q
  · constructor <;> simp [deleted, facts, row, hq, Watermarks.ofOffsets]
  · constructor <;> simp [deleted, row, hq, Watermarks.unset]

def provider : LagProvider := .make "ev" "g" 1000000000 180000000000

def noon : Moment := ⟨⟨1700000000, 0⟩, 0⟩

theorem sample_by_cache_iff_committed :
    (deleted (some 60)).facts.Valid ∧
      (∀ q ∈ provider.reads (deleted (some 60)).facts 0, ¬ (deleted (some 60)).facts.Overcounts q) ∧
      (provider.measure ({ answers := (deleted (some 60)).answers } : ScriptedBroker) noon).sample =
        (provider.measure ({ answers := { (deleted (some 60)).answers with assignment := some [] } } : ScriptedBroker) noon).sample := by
  have hnone : ∀ q ∈ provider.reads (deleted (some 60)).facts 0, ¬ (deleted (some 60)).facts.Overcounts q := by
    intro q hq
    obtain rfl : q = ⟨"ev", 0⟩ := List.mem_singleton.mp hq
    rintro ⟨-, houtran⟩
    revert houtran
    decide
  exact ⟨valid_deleted _, hnone, ((LagProvider.sample_by_cache_iff (tells _)
    (tells { deleted (some 60) with owned := some [] }) (coherent_deleted _) rfl rfl provider noon).2 (valid_deleted _)).1 hnone⟩

/-- Without a commit all records count that there ever were, and the broker would tell of sixty. -/
theorem deleted_records_count : ¬ ∀ (S T : ScriptedBroker → Prop) (x : LagFacts), Tells S x → Tells T x.unowned →
    x.Coherent → ∀ b c, S b → T c → ∀ (p : LagProvider) (now : Moment),
      (p.measure b now).sample.map LagSample.lag = (p.measure c now).sample.map LagSample.lag := by
  intro h
  have heq := h _ _ (deleted none).facts (tells _) (tells { deleted none with owned := some [] }) (coherent_deleted none)
    { answers := (deleted none).answers } { answers := { (deleted none).answers with assignment := some [] } } rfl rfl
    provider noon
  have hm : (Except.ok 100 : Except Fault Int) = .ok 60 := heq
  cases hm

end LagScript

end StreamTrigger
