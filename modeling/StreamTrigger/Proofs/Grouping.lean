import StreamTrigger.Dispatch.Grouping
import StreamTrigger.Proofs.Trace
import Mathlib.Data.List.Induction

namespace StreamTrigger

theorem Partition.perm_of_part {rs ss : List Record} (h : ∀ p : Partition, p.part rs = p.part ss) : rs.Perm ss := by
  rw [List.perm_iff_count]
  intro r
  have hcount (xs : List Record) : (r.partition.part xs).count r = xs.count r := List.count_filter (decide_eq_true rfl)
  rw [← hcount rs, h, hcount]

namespace Batch

structure Grouped (gs : List Group) : Prop where
  own : ∀ g ∈ gs, ∀ r ∈ g.records, r.partition = g.partition
  distinct : (gs.map Group.partition).Nodup

theorem mem_place_partition {r : Record} {gs : List Group} {p : Partition}
    (h : p ∈ (place r gs).map Group.partition) : p = r.partition ∨ p ∈ gs.map Group.partition := by
  induction gs with
  | nil => simpa [place] using h
  | cons g gs ih =>
      by_cases hg : g.partition = r.partition
      · simp only [place, if_pos hg, List.map_cons] at h
        exact .inr h
      · simp only [place, if_neg hg, List.map_cons, List.mem_cons] at h
        rcases h with rfl | h
        · simp
        · rcases ih h with rfl | h
          · simp
          · simp [h]

theorem Grouped.place {gs : List Group} (h : Grouped gs) (r : Record) : Grouped (place r gs) := by
  induction gs with
  | nil => exact ⟨by simp [Batch.place], by simp [Batch.place]⟩
  | cons g gs ih =>
      obtain ⟨hg, hgs⟩ := List.nodup_cons.mp h.distinct
      have hown := List.forall_mem_cons.mp h.own
      have ih := ih ⟨hown.2, hgs⟩
      by_cases he : g.partition = r.partition
      · simp only [Batch.place, if_pos he]
        refine ⟨List.forall_mem_cons.mpr ⟨fun s hs => ?_, hown.2⟩, h.distinct⟩
        rcases List.mem_append.mp hs with hs | hs
        · exact hown.1 s hs
        · simp only [List.mem_singleton] at hs
          subst hs
          exact he.symm
      · simp only [Batch.place, if_neg he]
        refine ⟨List.forall_mem_cons.mpr ⟨hown.1, ih.own⟩, List.nodup_cons.mpr ⟨fun hm => ?_, ih.distinct⟩⟩
        rcases mem_place_partition hm with hp | hp
        · exact he hp
        · exact hg hp

theorem part_place {gs : List Group} (h : Grouped gs) (r : Record) (p : Partition) :
    p.part ((place r gs).flatMap Group.records) = p.part (gs.flatMap Group.records ++ [r]) := by
  induction gs with
  | nil => simp [place]
  | cons g gs ih =>
      obtain ⟨hg, hgs⟩ := List.nodup_cons.mp h.distinct
      have hown := List.forall_mem_cons.mp h.own
      by_cases he : g.partition = r.partition
      · simp only [place, if_pos he, List.flatMap_cons, Partition.part_append, List.append_assoc, List.append_cancel_left_eq]
        -- the record and the later groups belong to different partitions, so their order does not show in a part
        by_cases hp : p = r.partition
        · have hn : p.part (gs.flatMap Group.records) = [] := by
            refine Partition.part_eq_nil (fun s hs hsp => hg ?_)
            obtain ⟨g', hg', hs⟩ := List.mem_flatMap.mp hs
            rw [he, ← hp, ← hsp, hown.2 g' hg' s hs]
            exact List.mem_map_of_mem hg'
          simp [hn]
        · have hn : p.part [r] = [] := Partition.part_eq_nil (by simpa using fun h => hp h.symm)
          simp [hn]
      · simp only [place, if_neg he, List.flatMap_cons, Partition.part_append, List.append_assoc, ih ⟨hown.2, hgs⟩]

theorem groups_append (b : Batch) (r : Record) : groups (b ++ [r]) = place r (groups b) := by
  simp [groups]

theorem grouped_groups (b : Batch) : Grouped (groups b) := by
  induction b using List.reverseRecOn with
  | nil => exact ⟨by simp [groups], by simp [groups]⟩
  | append_singleton b r ih => rw [groups_append]; exact ih.place r

theorem part_groups (b : Batch) (p : Partition) : p.part ((groups b).flatMap Group.records) = p.part b := by
  induction b using List.reverseRecOn with
  | nil => rfl
  | append_singleton b r ih => rw [groups_append, part_place (grouped_groups b), Partition.part_append, ih, Partition.part_append]

theorem groups_perm (b : Batch) : ((groups b).flatMap Group.records).Perm b := Partition.perm_of_part (part_groups b)

def IsHighest (b : Batch) (p : Partition) (o : Int) : Prop :=
  (∃ r ∈ b, r.partition = p ∧ r.offset = o) ∧ ∀ r ∈ b, r.partition = p → r.offset ≤ o

namespace IsHighest

variable {b : Batch} {r : Record} {p : Partition} {o : Int}

theorem first (h : ∀ s ∈ b, s.partition ≠ r.partition) : IsHighest (b ++ [r]) r.partition r.offset := by
  refine ⟨⟨r, by simp, rfl, rfl⟩, ?_⟩
  simp only [List.mem_append, List.mem_singleton]
  rintro s (hs | rfl) he
  · exact absurd he (h s hs)
  · exact Int.le_refl _

theorem join (h : IsHighest b r.partition o) : IsHighest (b ++ [r]) r.partition (max r.offset o) := by
  obtain ⟨⟨s, hs, hsp, hso⟩, hmax⟩ := h
  constructor
  · rcases Int.le_total r.offset o with hle | hle
    · exact ⟨s, by simp [hs], hsp, by simp [hso, Int.max_eq_right hle]⟩
    · exact ⟨r, by simp, rfl, by simp [Int.max_eq_left hle]⟩
  · simp only [List.mem_append, List.mem_singleton]
    rintro t (ht | rfl) he
    · exact Int.le_trans (hmax t ht he) (Int.le_max_right _ _)
    · exact Int.le_max_left _ _

theorem other (h : IsHighest b p o) (hp : r.partition ≠ p) : IsHighest (b ++ [r]) p o := by
  obtain ⟨⟨s, hs, hsp, hso⟩, hmax⟩ := h
  refine ⟨⟨s, by simp [hs], hsp, hso⟩, ?_⟩
  simp only [List.mem_append, List.mem_singleton]
  rintro t (ht | rfl) he
  · exact hmax t ht he
  · exact absurd he hp

end IsHighest

theorem highest_append (b : Batch) (r : Record) (p : Partition) :
    (highest (b ++ [r])).get? p = if r.partition = p then
      some ((((highest b).get? r.partition).map (max r.offset)).getD r.offset) else (highest b).get? p := by
  simp [highest]

theorem highest_spec (b : Batch) (p : Partition) :
    ((highest b).get? p = none → ∀ r ∈ b, r.partition ≠ p) ∧ ∀ o, (highest b).get? p = some o → IsHighest b p o := by
  induction b using List.reverseRecOn with
  | nil => exact ⟨by simp, by simp [highest]⟩
  | append_singleton b r ih =>
      obtain ⟨hnone, hsome⟩ := ih
      rw [highest_append]
      by_cases hp : r.partition = p
      · subst hp
        rw [if_pos rfl]
        refine ⟨by simp, ?_⟩
        rintro o ho
        cases hb : (highest b).get? r.partition with
        | none =>
            obtain rfl : r.offset = o := by simpa [hb] using ho
            exact .first (hnone hb)
        | some m =>
            obtain rfl : max r.offset m = o := by simpa [hb] using ho
            exact (hsome m hb).join
      · rw [if_neg hp]
        refine ⟨?_, fun o ho => (hsome o ho).other hp⟩
        simp only [List.mem_append, List.mem_singleton]
        rintro h s (hs | rfl)
        · exact hnone h s hs
        · exact hp

def IsNext (b : Batch) (q : Position) : Prop :=
  ∃ o, IsHighest b q.partition o ∧ q.offset = o + 1

variable {α β ε : Type}

theorem mapM_eq_map {f : α → Except ε β} {g : α → β} (hf : ∀ x y, f x = .ok y → y = g x) {xs : List α} {ys : List β}
    (h : xs.mapM f = .ok ys) : ys = xs.map g := by
  induction xs generalizing ys with
  | nil => simpa [pure, Except.pure, eq_comm] using h
  | cons x xs ih =>
      rw [List.mapM_cons] at h
      cases hx : f x with
      | error e => simp [hx, bind, Except.bind] at h
      | ok y =>
          cases hxs : xs.mapM f with
          | error e => simp [hx, hxs, bind, Except.bind] at h
          | ok zs =>
              simp only [hx, hxs, bind, Except.bind, pure, Except.pure, Except.ok.injEq] at h
              rw [← h, hf x y hx, ih hxs, List.map_cons]

theorem mapM_ok {f : α → Except ε β} {g : α → β} {xs : List α} (h : ∀ x ∈ xs, f x = .ok (g x)) :
    xs.mapM f = .ok (xs.map g) := by
  induction xs with
  | nil => rfl
  | cons x xs ih =>
      have hx := h x List.mem_cons_self
      have hxs := ih (fun y hy => h y (List.mem_cons_of_mem x hy))
      simp only [List.mapM_cons, hx, hxs, bind, Except.bind, pure, Except.pure, List.map_cons]

theorem mapM_cases (f : α → Except ε β) (xs : List α) :
    (∃ ys, xs.mapM f = .ok ys) ∧ (∀ x ∈ xs, ∃ y, f x = .ok y) ∨ ∃ e, xs.mapM f = .error e ∧ ∃ x ∈ xs, f x = .error e := by
  induction xs with
  | nil => exact .inl ⟨⟨[], rfl⟩, by simp⟩
  | cons x xs ih =>
      rw [List.mapM_cons]
      cases hx : f x with
      | error e => exact .inr ⟨e, rfl, x, List.mem_cons_self, hx⟩
      | ok y =>
          rcases ih with ⟨⟨ys, hys⟩, hall⟩ | ⟨e, hxs, z, hz, he⟩
          · exact .inl ⟨⟨y :: ys, by rw [hys]; rfl⟩, List.forall_mem_cons.mpr ⟨⟨y, hx⟩, hall⟩⟩
          · exact .inr ⟨e, by rw [hxs]; rfl, z, List.mem_cons_of_mem x hz, he⟩

def ranked (b : Batch) : List (Partition × Int) := (highest b).entries.mergeSort (fun x y => x.1.le y.1)

theorem mem_ranked {b : Batch} {p : Partition} {o : Int} : (p, o) ∈ ranked b ↔ (highest b).get? p = some o :=
  (List.mergeSort_perm _ _).mem_iff.trans Table.mem_entries

theorem nextPositions_eq {b : Batch} {ps : List Position} (h : nextPositions b = .ok ps) :
    ps = (ranked b).map (fun e => ⟨e.1, e.2 + 1⟩) := by
  refine mapM_eq_map (fun e q he => ?_) h
  rw [Word.add] at he
  split at he
  · simpa [Except.map, eq_comm] using he
  · simp [Except.map] at he

theorem nextPositions_isNext {b : Batch} {ps : List Position} (h : nextPositions b = .ok ps) {q : Position}
    (hq : q ∈ ps) : IsNext b q := by
  rw [nextPositions_eq h] at hq
  obtain ⟨⟨p, o⟩, he, rfl⟩ := List.mem_map.mp hq
  exact ⟨o, (highest_spec b p).2 o (mem_ranked.mp he), rfl⟩

theorem nextPositions_nodup {b : Batch} {ps : List Position} (h : nextPositions b = .ok ps) :
    (ps.map Position.partition).Nodup := by
  have hperm := (List.mergeSort_perm (highest b).entries (fun x y => x.1.le y.1)).map Prod.fst
  rw [nextPositions_eq h, List.map_map]
  exact hperm.nodup_iff.mpr (highest b).nodup

theorem nextPositions_total {b : Batch} {ps : List Position} (h : nextPositions b = .ok ps) {r : Record}
    (hr : r ∈ b) : r.partition ∈ ps.map Position.partition := by
  cases ho : (highest b).get? r.partition with
  | none => exact absurd rfl ((highest_spec b r.partition).1 ho r hr)
  | some o =>
      rw [nextPositions_eq h, List.map_map]
      exact List.mem_map.mpr ⟨(r.partition, o), mem_ranked.mpr ho, rfl⟩

theorem fits_next {o : Int} (h : Word.least ≤ o ∧ o < Word.greatest) : Word.Fits (o + 1) := by
  obtain ⟨hleast, hgreatest⟩ := h
  exact ⟨by omega, hgreatest⟩

theorem nextPositions_ok {b : Batch} (h : ∀ r ∈ b, Word.Fits (r.offset + 1)) : ∃ ps, nextPositions b = .ok ps := by
  refine ⟨_, mapM_ok (g := fun e => ⟨e.1, e.2 + 1⟩) (fun e he => ?_)⟩
  obtain ⟨⟨r, hr, -, ho⟩, -⟩ := (highest_spec b e.1).2 e.2 (mem_ranked.mp he)
  simp [Word.add, Except.map, ← ho, h r hr]

theorem nextPositions_cases {b : Batch} (hb : ∀ r ∈ b, Word.Fits r.offset) :
    (∃ ps, nextPositions b = .ok ps) ∧ (∀ r ∈ b, r.offset ≠ Word.greatest) ∨
      nextPositions b = .error .addOverflow ∧ ∃ r ∈ b, r.offset = Word.greatest := by
  rcases mapM_cases (fun e : Partition × Int => (Word.add e.2 1).map (fun offset => (⟨e.1, offset⟩ : Position)))
    (ranked b) with ⟨hok, hall⟩ | ⟨f, herror, ⟨p, o⟩, he, hf⟩
  · refine .inl ⟨hok, fun r hr hgreatest => ?_⟩
    cases ho : (highest b).get? r.partition with
    | none => exact (highest_spec b r.partition).1 ho r hr rfl
    | some o =>
        -- the highest offset of the partition can be stepped over
        have hle : r.offset ≤ o := ((highest_spec b r.partition).2 o ho).2 r hr rfl
        obtain ⟨q, hq⟩ := hall _ (mem_ranked.mpr ho)
        have hfits : Word.Fits (o + 1) := by
          by_contra hover
          simp [Word.add, hover, Except.map] at hq
        obtain ⟨-, hfits⟩ := hfits
        omega
  · obtain ⟨⟨r, hr, -, rfl⟩, -⟩ := (highest_spec b p).2 o (mem_ranked.mp he)
    have hover : ¬ Word.Fits (r.offset + 1) := fun hfits => by simp [Word.add, hfits, Except.map] at hf
    obtain rfl : .addOverflow = f := by simpa [Word.add, hover, Except.map] using hf
    refine .inr ⟨herror, r, hr, ?_⟩
    obtain ⟨hleast, hgreatest⟩ := hb r hr
    by_contra hne
    exact hover ⟨by omega, by omega⟩

end Batch

end StreamTrigger
