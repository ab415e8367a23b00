/-!
Tables of values under names, as lists of pairs that are looked up by name.
-/
namespace ActivityBoard.Named

variable {ι α : Type} {l : List (ι × α)} {i : ι} {a : α}

theorem lookup_cons_eq_ite [DecidableEq ι] (l : List (ι × α)) (k : ι) (a : α) (j : ι) :
    ((k, a) :: l).lookup j = if j = k then some a else l.lookup j := by
  by_cases hj : j = k
  · simp [hj]
  · have hb : (j == k) = false := by simpa using hj
    simp only [List.lookup_cons, hb, if_neg hj]

theorem lookup_filter_ne [DecidableEq ι] (l : List (ι × α)) (i j : ι) :
    (l.filter fun entry => entry.1 ≠ i).lookup j = if j = i then none else l.lookup j := by
  induction l with
  | nil => simp
  | cons entry rest ih =>
    obtain ⟨k, a⟩ := entry
    by_cases hk : k = i
    · rw [List.filter_cons_of_neg (by simpa using hk), ih, lookup_cons_eq_ite, hk]
      by_cases hj : j = i <;> simp only [hj, if_true, if_false]
    · rw [List.filter_cons_of_pos (by simpa using hk), lookup_cons_eq_ite, lookup_cons_eq_ite, ih]
      by_cases hj : j = i
      · have hjk : ¬ j = k := fun he => hk (he.symm.trans hj)
        simp only [hj, if_true, if_neg (hj ▸ hjk)]
      · simp only [hj, if_false]

theorem lookup_eq_some_iff_mem [DecidableEq ι] (h : (l.map Prod.fst).Nodup) :
    l.lookup i = some a ↔ (i, a) ∈ l := by
  induction l with
  | nil => simp
  | cons entry rest ih =>
    obtain ⟨k, b⟩ := entry
    rw [List.map_cons, List.nodup_cons] at h
    rw [lookup_cons_eq_ite, List.mem_cons, Prod.mk.injEq, ← ih h.2]
    by_cases hi : i = k
    · subst i
      have hk : rest.lookup k ≠ some a := fun he =>
        h.1 (List.mem_map.2 ⟨(k, a), (ih h.2).1 he, rfl⟩)
      simp [hk, eq_comm]
    · simp [hi]

theorem nodup_filter_names (h : (l.map Prod.fst).Nodup) (p : ι × α → Bool) :
    ((l.filter p).map Prod.fst).Nodup :=
  h.sublist (List.filter_sublist.map _)

theorem nodup_cons_filter_ne [DecidableEq ι] (h : (l.map Prod.fst).Nodup) (i : ι) (a : α) :
    (((i, a) :: l.filter fun entry => entry.1 ≠ i).map Prod.fst).Nodup := by
  rw [List.map_cons, List.nodup_cons]
  refine ⟨?_, nodup_filter_names h _⟩
  simp [List.mem_map]

end ActivityBoard.Named
