import StreamTrigger.Proofs.Grouping
import StreamTrigger.Proofs.PartitionOrder
import Mathlib.Data.List.Permutation
import Mathlib.Data.Option.Basic

namespace StreamTrigger

section FirstAppearance

variable {α : Type} [DecidableEq α]

theorem eraseDups_concat (xs : List α) (a : α) :
    (xs ++ [a]).eraseDups = if a ∈ xs then xs.eraseDups else xs.eraseDups ++ [a] := by
  rw [List.eraseDups_append]
  by_cases h : a ∈ xs <;> simp [List.removeAll, h, List.eraseDups_cons]

theorem pairwise_idxOf_eraseDups (xs : List α) : xs.eraseDups.Pairwise (fun x y => xs.idxOf x < xs.idxOf y) := by
  induction xs using List.reverseRecOn with
  | nil => simp
  | append_singleton xs a ih =>
      have hold {x : α} (hx : x ∈ xs.eraseDups) : (xs ++ [a]).idxOf x = xs.idxOf x :=
        List.idxOf_append_of_mem (List.mem_eraseDups.mp hx)
      have ih : xs.eraseDups.Pairwise (fun x y => (xs ++ [a]).idxOf x < (xs ++ [a]).idxOf y) :=
        ih.imp_of_mem (fun hx hy h => by rwa [hold hx, hold hy])
      rw [eraseDups_concat]
      split
      · exact ih
      · next ha =>
          refine List.pairwise_append.mpr ⟨ih, List.pairwise_singleton _ _, fun x hx y hy => ?_⟩
          obtain rfl := List.mem_singleton.mp hy
          have hlt := List.idxOf_lt_length_of_mem (List.mem_eraseDups.mp hx)
          rw [hold hx, List.idxOf_append_of_notMem ha]
          omega

theorem nodup_eraseDups (xs : List α) : xs.eraseDups.Nodup :=
  (pairwise_idxOf_eraseDups xs).imp (fun {x y} (h : xs.idxOf x < xs.idxOf y) (he : x = y) => by simp [he] at h)

end FirstAppearance

theorem exists_map_some {α : Type} {xs : List (Option α)} (h : ∀ x ∈ xs, x.isSome) : ∃ ys : List α, xs = ys.map some := by
  induction xs with
  | nil => exact ⟨[], rfl⟩
  | cons x xs ih =>
      obtain ⟨hx, hxs⟩ := List.forall_mem_cons.mp h
      obtain ⟨y, rfl⟩ := Option.isSome_iff_exists.mp hx
      obtain ⟨ys, rfl⟩ := ih hxs
      exact ⟨y :: ys, rfl⟩

def Group.next? (g : Group) : Option Position :=
  (g.records.map Record.offset).max?.map (fun o => ⟨g.partition, o + 1⟩)

namespace Batch

variable {b b' : Batch}

theorem place_parts {ps : List Partition} (hps : ps.Nodup) {r : Record} (hr : r.partition ∉ ps → r.partition.part b = []) :
    place r (ps.map (fun p => ⟨p, p.part b⟩)) =
      (if r.partition ∈ ps then ps else ps ++ [r.partition]).map (fun p => ⟨p, p.part (b ++ [r])⟩) := by
  have hself : r.partition.part [r] = [r] := Partition.part_eq_self (by simp)
  have hother {p : Partition} (h : r.partition ≠ p) : p.part [r] = [] := Partition.part_eq_nil (by simpa using h)
  induction ps with
  | nil => simp [place, hr List.not_mem_nil, hself]
  | cons p ps ih =>
      obtain ⟨hp, hps⟩ := List.nodup_cons.mp hps
      by_cases he : p = r.partition
      · subst he
        have hrest : ∀ q ∈ ps, r.partition ≠ q := fun q hq he => hp (he ▸ hq)
        simp only [List.map_cons, place, if_true, List.mem_cons, true_or, Partition.part_append, hself, List.cons.injEq,
          true_and]
        exact List.map_congr_left (fun q hq => by rw [hother (hrest q hq), List.append_nil])
      · have ih := ih hps (fun h => hr (by simp [h, Ne.symm he]))
        simp only [List.map_cons, place, if_neg he, ih, List.mem_cons, Ne.symm he, false_or]
        split <;> simp [hother (Ne.symm he)]

/-- The groups are the parts of the partitions, in the order of their first appearance. -/
theorem groups_eq (b : Batch) :
    groups b = (b.map Record.partition).eraseDups.map (fun p => ⟨p, p.part b⟩) := by
  induction b using List.reverseRecOn with
  | nil => rfl
  | append_singleton b r ih =>
      rw [groups_append, ih, place_parts (nodup_eraseDups _), List.map_append, List.map_singleton, eraseDups_concat]
      · simp only [List.mem_eraseDups]
      · intro hr
        refine Partition.part_eq_nil (fun s hs he => hr ?_)
        exact List.mem_eraseDups.mpr (List.mem_map.mpr ⟨s, hs, he⟩)

/-- Groups of different partitions, in the order in which these first appear; each holds the records of its partition
in the order of the batch, at least one; and together they hold each record once. -/
theorem groups_partition_stably (b : Batch) :
    ((groups b).map Group.partition).Nodup ∧
    ((groups b).map Group.partition).Pairwise
      (fun p q => (b.map Record.partition).idxOf p < (b.map Record.partition).idxOf q) ∧
    (∀ g ∈ groups b, g.records ≠ [] ∧ g.records = b.filter (fun r => r.partition = g.partition)) ∧
    ((groups b).flatMap Group.records).Perm b := by
  have hpartitions : (groups b).map Group.partition = (b.map Record.partition).eraseDups := by
    rw [groups_eq, List.map_map]
    exact List.map_id _
  rw [hpartitions]
  refine ⟨nodup_eraseDups _, pairwise_idxOf_eraseDups _, fun g hg => ?_, groups_perm b⟩
  rw [groups_eq] at hg
  obtain ⟨p, hp, rfl⟩ := List.mem_map.mp hg
  obtain ⟨r, hr, he⟩ := List.mem_map.mp (List.mem_eraseDups.mp hp)
  exact ⟨List.ne_nil_of_mem (Partition.mem_part.mpr ⟨hr, he⟩), rfl⟩

theorem next?_isNext {g : Group} (hg : g ∈ groups b) : ∃ q, g.next? = some q ∧ q.partition = g.partition ∧ IsNext b q := by
  rw [groups_eq] at hg
  obtain ⟨p, hp, rfl⟩ := List.mem_map.mp hg
  obtain ⟨r, hr, he⟩ := List.mem_map.mp (List.mem_eraseDups.mp hp)
  cases ho : ((p.part b).map Record.offset).max? with
  | none =>
      rw [List.max?_eq_none_iff, List.map_eq_nil_iff] at ho
      exact absurd (Partition.mem_part.mpr ⟨hr, he⟩) (ho ▸ List.not_mem_nil)
  | some o =>
      obtain ⟨hmem, hmax⟩ := List.max?_eq_some_iff.mp ho
      obtain ⟨s, hs, hso⟩ := List.mem_map.mp hmem
      obtain ⟨hsb, hsp⟩ := Partition.mem_part.mp hs
      refine ⟨⟨p, o + 1⟩, by simp [Group.next?, ho], rfl, o, ⟨⟨s, hsb, hsp, hso⟩, fun t ht htp => ?_⟩, rfl⟩
      exact hmax _ (List.mem_map.mpr ⟨t, Partition.mem_part.mpr ⟨ht, htp⟩, rfl⟩)

theorem IsNext.perm {q : Position} (h : b.Perm b') : IsNext b q ↔ IsNext b' q := by
  simp only [IsNext, IsHighest, h.mem_iff]

theorem IsNext.unique {q q' : Position} (hq : IsNext b q) (hq' : IsNext b q') (h : q.partition = q'.partition) : q = q' := by
  obtain ⟨o, ⟨⟨r, hr, hp, rfl⟩, hmax⟩, ho⟩ := hq
  obtain ⟨o', ⟨⟨r', hr', hp', rfl⟩, hmax'⟩, ho'⟩ := hq'
  have hle := hmax r' hr' (hp'.trans h.symm)
  have hle' := hmax' r hr (hp.trans h)
  have hoffset : q.offset = q'.offset := by omega
  cases q
  cases q'
  exact Position.mk.injEq .. ▸ ⟨h, hoffset⟩

theorem mem_nextPositions {ps : List Position} (h : nextPositions b = .ok ps) (q : Position) : q ∈ ps ↔ IsNext b q := by
  refine ⟨nextPositions_isNext h, fun hq => ?_⟩
  obtain ⟨-, ⟨⟨r, hr, hp, -⟩, -⟩, -⟩ := id hq
  obtain ⟨q', hq', hp'⟩ := List.mem_map.mp (nextPositions_total h hr)
  exact hq.unique (nextPositions_isNext h hq') (hp.symm.trans hp'.symm) ▸ hq'

theorem sorted_nextPositions {ps : List Position} (h : nextPositions b = .ok ps) : ps.Pairwise (fun x y => x.le y) := by
  have htrans (x y z : Partition × Int) (hxy : x.1.le y.1) (hyz : y.1.le z.1) : x.1.le z.1 := Partition.le_trans hxy hyz
  have htotal (x y : Partition × Int) : x.1.le y.1 || y.1.le x.1 := x.1.le_total y.1
  rw [nextPositions_eq h]
  exact List.pairwise_map.mpr (List.pairwise_mergeSort htrans htotal _)

/-- The next positions are those behind the highest records, in order. -/
theorem eq_nextPositions {ps qs : List Position} (h : nextPositions b = .ok ps) (hs : qs.Pairwise (fun x y => x.le y))
    (hn : (qs.map Position.partition).Nodup) (hq : ∀ q, q ∈ qs ↔ IsNext b q) : ps = qs :=
  Position.eq_of_sorted (sorted_nextPositions h) hs (nextPositions_nodup h) hn
    (fun q => (mem_nextPositions h q).trans (hq q).symm)

theorem exists_groups_next (b : Batch) : ∃ qs : List Position, (groups b).map Group.next? = qs.map some ∧
    (qs.map Position.partition).Nodup ∧ ∀ q, q ∈ qs ↔ IsNext b q := by
  have hnext {g : Group} (hg : g ∈ groups b) := next?_isNext hg
  have hsome : ∀ x ∈ (groups b).map Group.next?, x.isSome := by
    rintro x hx
    obtain ⟨g, hg, rfl⟩ := List.mem_map.mp hx
    obtain ⟨q, hq, -⟩ := hnext hg
    rw [hq, Option.isSome_some]
  obtain ⟨qs, hqs⟩ := exists_map_some hsome
  have hmem (q : Position) : q ∈ qs ↔ ∃ g ∈ groups b, g.next? = some q := by
    rw [← List.mem_map_of_injective (Option.some_injective _), ← hqs, List.mem_map]
  have hpartitions : (qs.map Position.partition).map some = ((groups b).map Group.partition).map some := by
    have hmap := congrArg (List.map (Option.map Position.partition)) hqs
    simp only [List.map_map] at hmap ⊢
    refine hmap.symm.trans (List.map_congr_left (fun g hg => ?_))
    obtain ⟨q, hq, hp, -⟩ := hnext hg
    simp [hq, hp]
  refine ⟨qs, hqs, ?nodup, fun q => ?mem⟩
  case nodup =>
    rw [List.map_injective_iff.mpr (Option.some_injective _) hpartitions]
    exact (grouped_groups b).distinct
  case mem =>
    rw [hmem]
    constructor
    · rintro ⟨g, hg, hq⟩
      obtain ⟨q', hq', -, hn⟩ := hnext hg
      rwa [Option.some.inj (hq.symm.trans hq')]
    · intro hq
      obtain ⟨-, ⟨⟨r, hr, hp, -⟩, -⟩, -⟩ := id hq
      obtain ⟨g, hg, hrg⟩ := List.mem_flatMap.mp ((groups_perm b).mem_iff.mpr hr)
      obtain ⟨q', hq', hp', hn⟩ := hnext hg
      have hsame := hn.unique hq (hp'.trans (((grouped_groups b).own g hg r hrg).symm.trans hp))
      exact ⟨g, hg, hsame ▸ hq'⟩

/-- The groups of a batch whose offsets can all be stepped over give one position each, and these in the order of their
partitions are the next positions, for whatever order of the batch. -/
theorem nextPositions_grouped (hb : ∀ r ∈ b, Word.least ≤ r.offset ∧ r.offset < Word.greatest) :
    ∃ ps, nextPositions b = .ok ps ∧ ps.Pairwise (fun x y => x.partition.Before y.partition) ∧
      (∃ qs : List Position, (groups b).map Group.next? = qs.map some ∧ ps = qs.mergeSort Position.le) ∧
      ∀ b' : Batch, b.Perm b' → nextPositions b' = .ok ps := by
  obtain ⟨ps, hps⟩ := nextPositions_ok (fun r hr => fits_next (hb r hr))
  refine ⟨ps, hps, Position.before_of_sorted (sorted_nextPositions hps) (nextPositions_nodup hps), ?grouped, ?permuted⟩
  case grouped =>
    obtain ⟨qs, hqs, hnodup, hmem⟩ := exists_groups_next b
    have hperm := List.mergeSort_perm qs Position.le
    have hsorted : (qs.mergeSort Position.le).map Position.partition |>.Nodup :=
      (hperm.map Position.partition).nodup_iff.mpr hnodup
    exact ⟨qs, hqs, eq_nextPositions hps (Position.sorted_mergeSort qs) hsorted (fun q => hperm.mem_iff.trans (hmem q))⟩
  case permuted =>
    intro b' hperm
    obtain ⟨ps', hps'⟩ := nextPositions_ok (b := b') (fun r hr => fits_next (hb r (hperm.mem_iff.mpr hr)))
    have hsame := eq_nextPositions hps (sorted_nextPositions hps') (nextPositions_nodup hps')
      (fun q => (mem_nextPositions hps' q).trans (IsNext.perm hperm).symm)
    rw [hps', hsame]

/-- Two topics that stand the other way round in the order of their UTF-16 units. -/
def scattered : Batch :=
  [{ partition := ⟨"😀", 0⟩, offset := 7 }, { partition := ⟨"\uffff", 2⟩, offset := 4 }, { partition := ⟨"😀", 0⟩, offset := 9 },
    { partition := ⟨"\uffff", -1⟩, offset := 3 }, { partition := ⟨"😀", 0⟩, offset := 8 }]

theorem nextPositions_grouped_scattered :
    (∀ r ∈ scattered, Word.least ≤ r.offset ∧ r.offset < Word.greatest) ∧
    (groups scattered).map Group.next? = [some ⟨⟨"😀", 0⟩, 10⟩, some ⟨⟨"\uffff", 2⟩, 5⟩, some ⟨⟨"\uffff", -1⟩, 4⟩] ∧
    nextPositions scattered.reverse = .ok [⟨⟨"\uffff", -1⟩, 4⟩, ⟨⟨"\uffff", 2⟩, 5⟩, ⟨⟨"😀", 0⟩, 10⟩] := by
  have hoffsets : ∀ r ∈ scattered, Word.least ≤ r.offset ∧ r.offset < Word.greatest := by decide
  obtain ⟨ps, hps, -, -, hperm⟩ := nextPositions_grouped hoffsets
  have hreverse := hperm scattered.reverse (List.reverse_perm scattered).symm
  have hforth : nextPositions scattered = .ok [⟨⟨"\uffff", -1⟩, 4⟩, ⟨⟨"\uffff", 2⟩, 5⟩, ⟨⟨"😀", 0⟩, 10⟩] := by cbv
  exact ⟨hoffsets, by decide +kernel, hreverse.trans (hps.symm.trans hforth)⟩

end Batch

end StreamTrigger
