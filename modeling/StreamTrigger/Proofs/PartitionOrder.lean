import StreamTrigger.Partition
import Mathlib.Data.List.Lex
import Mathlib.Data.List.Nodup
import Mathlib.Data.String.Basic

namespace StreamTrigger

namespace Text

def bytes (s : String) : List UInt8 := s.toUTF8.data.toList

theorem bytes_eq (s : String) : bytes s = s.toList.flatMap String.utf8EncodeChar := by
  obtain ⟨cs, rfl⟩ : ∃ cs, s = String.ofList cs := ⟨s.toList, by simp⟩
  simp [bytes, List.utf8Encode]

theorem byte_lt_iff {m n : Nat} (hm : m < 256) (hn : n < 256) : UInt8.ofNat m < UInt8.ofNat n ↔ m < n := by
  rw [UInt8.lt_iff_toNat_lt, UInt8.toNat_ofNat_of_lt' hm, UInt8.toNat_ofNat_of_lt' hn]

theorem byte_eq_iff {m n : Nat} (hm : m < 256) (hn : n < 256) : UInt8.ofNat m = UInt8.ofNat n ↔ m = n := by
  rw [← UInt8.toNat_inj, UInt8.toNat_ofNat_of_lt' hm, UInt8.toNat_ofNat_of_lt' hn]

theorem encode_lt {c d : Char} (h : c < d) (xs ys : List UInt8) :
    String.utf8EncodeChar c ++ xs < String.utf8EncodeChar d ++ ys := by
  have hcd : c.val.toNat < d.val.toNat := h
  have hd : d.val.toNat < 0x110000 := by
    have hvalid := d.valid
    unfold UInt32.isValidChar Nat.isValidChar at hvalid
    omega
  rw [String.utf8EncodeChar, String.utf8EncodeChar]
  generalize c.val.toNat = m at *
  generalize d.val.toNat = n at *
  -- one case for each two lengths; the first byte tells the length, and the rest are digits in base 64
  split_ifs
  all_goals
    simp (disch := omega) only [List.cons_append, List.nil_append, List.cons_lt_cons_iff, byte_lt_iff, byte_eq_iff,
      Nat.mod_eq_of_lt]
    omega

theorem encode_mono {cs ds : List Char} (h : cs < ds) :
    cs.flatMap String.utf8EncodeChar < ds.flatMap String.utf8EncodeChar := by
  induction h with
  | @nil d ds =>
      obtain ⟨x, xs, hx⟩ := List.exists_cons_of_ne_nil (show String.utf8EncodeChar d ≠ [] by simp)
      rw [List.flatMap_nil, List.flatMap_cons, hx]
      exact .nil
  | rel h => exact encode_lt h _ _
  | cons h ih => exact List.Lex.append_left _ ih _

/-- The order of characters is that of the bytes which encode them. -/
theorem bytes_lt_iff {s t : String} : bytes s < bytes t ↔ s < t := by
  rw [bytes_eq, bytes_eq, String.lt_iff_toList_lt]
  refine ⟨fun h => ?_, encode_mono⟩
  rcases lt_trichotomy s.toList t.toList with hlt | heq | hgt
  · exact hlt
  · exact absurd h (heq ▸ List.lt_irrefl _)
  · exact absurd (List.lt_trans h (encode_mono hgt)) (List.lt_irrefl _)

end Text

namespace Partition

theorem cmp_eq_lex : cmp = compareLex (compareOn topic) (compareOn number) := rfl

instance : Std.TransCmp cmp := cmp_eq_lex ▸ inferInstance

theorem le_trans {p q r : Partition} (hpq : p.le q) (hqr : q.le r) : p.le r := Std.TransCmp.isLE_trans hpq hqr

theorem le_total (p q : Partition) : p.le q || q.le p := by
  have hswap : q.cmp p = (p.cmp q).swap := Std.OrientedCmp.eq_swap
  rw [le, le, hswap]
  cases p.cmp q <;> rfl

theorem le_antisymm {p q : Partition} (hpq : p.le q) (hqp : q.le p) : p = q := by
  have heq : p.cmp q = .eq := Std.OrientedCmp.isLE_antisymm hpq hqp
  rw [cmp, Ordering.then_eq_eq] at heq
  cases p
  cases q
  rw [mk.injEq]
  exact heq.imp Std.LawfulEqCmp.eq_of_compare Std.LawfulEqCmp.eq_of_compare

def Before (p q : Partition) : Prop :=
  Text.bytes p.topic < Text.bytes q.topic ∨ p.topic = q.topic ∧ p.number < q.number

instance (p q : Partition) : Decidable (p.Before q) := inferInstanceAs (Decidable (_ ∨ _))

theorem before_of_le {p q : Partition} (h : p.le q) (hne : p ≠ q) : p.Before q := by
  rw [le, cmp, Ordering.isLE_then_iff_or] at h
  rcases h with hlt | ⟨heq, hle⟩
  · exact .inl (Text.bytes_lt_iff.mpr (compareOfLessAndEq_eq_lt.mp hlt))
  · have htopic : p.topic = q.topic := Std.LawfulEqCmp.eq_of_compare heq
    have hnumber : p.number ≠ q.number := fun he => hne (by cases p; cases q; simp_all)
    have hle : p.number ≤ q.number := Int.isLE_compare.mp hle
    exact .inr ⟨htopic, by omega⟩

end Partition

namespace Position

variable {ps qs : List Position}

theorem sorted_mergeSort (ps : List Position) : (ps.mergeSort le).Pairwise (fun a b => a.le b) := by
  have htrans (a b c : Position) (hab : a.le b) (hbc : b.le c) : a.le c := Partition.le_trans hab hbc
  have htotal (a b : Position) : a.le b || b.le a := a.partition.le_total b.partition
  exact List.pairwise_mergeSort htrans htotal ps

theorem before_of_sorted (h : ps.Pairwise (fun a b => a.le b)) (hn : (ps.map partition).Nodup) :
    ps.Pairwise (fun a b => a.partition.Before b.partition) :=
  (h.and (List.pairwise_map.mp hn)).imp (fun h => Partition.before_of_le h.1 h.2)

theorem eq_of_sorted (hps : ps.Pairwise (fun a b => a.le b)) (hqs : qs.Pairwise (fun a b => a.le b))
    (hp : (ps.map partition).Nodup) (hq : (qs.map partition).Nodup) (h : ∀ q, q ∈ ps ↔ q ∈ qs) : ps = qs := by
  refine List.Perm.eq_of_pairwise (fun a b ha hb hab hba => ?_) hps hqs
    ((List.perm_ext_iff_of_nodup hp.of_map hq.of_map).mpr h)
  exact List.inj_on_of_nodup_map hp ha ((h b).mpr hb) (Partition.le_antisymm hab hba)

end Position

end StreamTrigger
