namespace StreamTrigger

/-- At most one entry stands for a key, so the number of entries is the number of keys. -/
structure Table (κ ν : Type) where
  entries : List (κ × ν)
  nodup : (entries.map Prod.fst).Nodup

namespace Table

variable {κ ν : Type} [DecidableEq κ]

def empty : Table κ ν := ⟨[], List.nodup_nil⟩

instance : Inhabited (Table κ ν) := ⟨empty⟩

def find (k : κ) : List (κ × ν) → Option ν
  | [] => none
  | (j, v) :: rest => if j = k then some v else find k rest

def put (k : κ) (v : ν) : List (κ × ν) → List (κ × ν)
  | [] => [(k, v)]
  | (j, w) :: rest => if j = k then (k, v) :: rest else (j, w) :: put k v rest

theorem keys_put (k : κ) (v : ν) (es : List (κ × ν)) :
    (put k v es).map Prod.fst = es.map Prod.fst ∨
      k ∉ es.map Prod.fst ∧ (put k v es).map Prod.fst = es.map Prod.fst ++ [k] := by
  induction es with
  | nil => exact .inr ⟨by simp, rfl⟩
  | cons e rest ih =>
      obtain ⟨j, w⟩ := e
      by_cases h : j = k
      · subst h; exact .inl (by simp [put])
      · rcases ih with ih | ⟨hk, ih⟩
        · exact .inl (by simp [put, h, ih])
        · exact .inr ⟨by simpa [Ne.symm h] using hk, by simp [put, h, ih]⟩

theorem nodup_put (k : κ) (v : ν) (es : List (κ × ν)) (h : (es.map Prod.fst).Nodup) :
    ((put k v es).map Prod.fst).Nodup := by
  rcases keys_put k v es with e | ⟨hk, e⟩
  · exact e ▸ h
  · rw [e, List.nodup_append]
    exact ⟨h, by simp, fun a ha b hb => by simp at hb; subst hb; exact fun e => hk (e ▸ ha)⟩

def get? (t : Table κ ν) (k : κ) : Option ν := find k t.entries

def insert (t : Table κ ν) (k : κ) (v : ν) : Table κ ν := ⟨put k v t.entries, nodup_put k v _ t.nodup⟩

def erase (t : Table κ ν) (k : κ) : Table κ ν :=
  ⟨t.entries.filter (fun e => e.1 ≠ k), t.nodup.sublist (List.filter_sublist.map _)⟩

def size (t : Table κ ν) : Nat := t.entries.length

def contains (t : Table κ ν) (k : κ) : Bool := (t.get? k).isSome

def ofList (es : List (κ × ν)) : Table κ ν := es.foldl (fun t e => t.insert e.1 e.2) empty

@[simp] theorem get?_empty (k : κ) : (empty : Table κ ν).get? k = none := rfl

theorem find_put (k j : κ) (v : ν) (es : List (κ × ν)) :
    find j (put k v es) = if k = j then some v else find j es := by
  induction es with
  | nil => rfl
  | cons e rest ih =>
      obtain ⟨i, w⟩ := e
      by_cases hik : i = k
      · subst hik; by_cases hij : i = j <;> simp [put, find, hij]
      · by_cases hij : i = j
        · subst hij; simp [put, find, hik, Ne.symm hik]
        · simp [put, find, hik, hij, ih]

@[simp] theorem get?_insert (t : Table κ ν) (k j : κ) (v : ν) :
    (t.insert k v).get? j = if k = j then some v else t.get? j := find_put k j v t.entries

theorem length_put (k : κ) (v : ν) (es : List (κ × ν)) :
    (put k v es).length = es.length + if (find k es).isSome then 0 else 1 := by
  induction es with
  | nil => rfl
  | cons e rest ih =>
      obtain ⟨j, w⟩ := e
      by_cases h : j = k
      · simp [put, find, h]
      · simp only [put, find, h, if_false, List.length_cons, ih]
        omega

theorem size_insert (t : Table κ ν) (k : κ) (v : ν) :
    (t.insert k v).size = t.size + if (t.get? k).isSome then 0 else 1 := length_put k v t.entries

theorem find_filter (k j : κ) (es : List (κ × ν)) :
    find j (es.filter (fun e => e.1 ≠ k)) = if k = j then none else find j es := by
  induction es with
  | nil => simp [find]
  | cons e rest ih =>
      obtain ⟨i, w⟩ := e
      by_cases hik : i = k
      · subst hik; by_cases hij : i = j <;> simp_all [find]
      · by_cases hij : i = j
        · subst hij; simp [find, hik, Ne.symm hik]
        · simp_all [find]

@[simp] theorem get?_erase (t : Table κ ν) (k j : κ) :
    (t.erase k).get? j = if k = j then none else t.get? j := find_filter k j t.entries

theorem find_eq_some_iff {es : List (κ × ν)} (h : (es.map Prod.fst).Nodup) (k : κ) (v : ν) :
    find k es = some v ↔ (k, v) ∈ es := by
  induction es with
  | nil => simp [find]
  | cons e es ih =>
      obtain ⟨j, w⟩ := e
      obtain ⟨hj, hes⟩ := List.nodup_cons.mp h
      by_cases hk : j = k
      · subst hk
        have hn : (j, v) ∉ es := fun hm => hj (List.mem_map.mpr ⟨(j, v), hm, rfl⟩)
        simp [find, hn, eq_comm]
      · simp [find, hk, ih hes, Ne.symm hk]

theorem mem_entries {t : Table κ ν} {k : κ} {v : ν} : (k, v) ∈ t.entries ↔ t.get? k = some v :=
  (find_eq_some_iff t.nodup k v).symm

end Table

end StreamTrigger
