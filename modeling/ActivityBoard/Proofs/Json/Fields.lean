import ActivityBoard.Json.Basic
import ActivityBoard.Proofs.Named

namespace ActivityBoard.Fields

variable {fields others : Fields} {key k : String} {value : Json}

theorem get?_cons (j : String) (v : Json) (fields : Fields) (k : String) :
    get? ((j, v) :: fields) k = if k = j then some v else fields.get? k :=
  Named.lookup_cons_eq_ite ..

theorem get?_eq_none (h : k ∉ fields.map Prod.fst) : fields.get? k = none := by
  apply List.lookup_eq_none_iff.2
  intro field hfield
  exact bne_iff_ne.2 fun he => h (he ▸ List.mem_map_of_mem hfield)

theorem get?_eq_some_iff_mem (h : (fields.map Prod.fst).Nodup) :
    fields.get? k = some value ↔ (k, value) ∈ fields :=
  Named.lookup_eq_some_iff_mem h

theorem get?_insert (fields : Fields) (key : String) (value : Json) (k : String) :
    (fields.insert key value).get? k = if k = key then some value else fields.get? k := by
  induction fields with
  | nil => exact get?_cons ..
  | cons field rest ih =>
    obtain ⟨j, v⟩ := field
    rw [insert]
    split
    · rename_i hkey
      subst hkey
      rw [get?_cons, get?_cons]
      split <;> rfl
    · rename_i hkey
      split
      · exact get?_cons ..
      · rw [get?_cons, get?_cons, ih]
        by_cases hk : k = j
        · rw [if_pos hk, if_neg fun he => hkey (he.symm.trans hk), if_pos hk]
        · rw [if_neg hk, if_neg hk]

theorem get?_insertAll (fields : Fields) (h : (others.map Prod.fst).Nodup) (k : String) :
    (fields.insertAll others).get? k = (others.get? k).or (fields.get? k) := by
  induction others generalizing fields with
  | nil => rfl
  | cons field rest ih =>
    obtain ⟨j, v⟩ := field
    obtain ⟨hj, hrest⟩ := List.nodup_cons.1 h
    rw [insertAll, List.foldl_cons, ← insertAll, ih _ hrest, get?_insert, get?_cons]
    by_cases hk : k = j
    · rw [if_pos hk, if_pos hk, get?_eq_none (hk ▸ hj), Option.none_or, Option.some_or]
    · rw [if_neg hk, if_neg hk]

theorem get?_ofList (h : (fields.map Prod.fst).Nodup) (k : String) :
    (ofList fields).get? k = fields.get? k := by
  rw [ofList, get?_insertAll [] h]
  exact Option.or_none

theorem get?_without (fields : Fields) (keys : List String) (k : String) :
    (fields.without keys).get? k = if k ∈ keys then none else fields.get? k := by
  induction fields with
  | nil => simp [without, get?]
  | cons field rest ih =>
    obtain ⟨j, v⟩ := field
    rw [without] at ih ⊢
    rw [get?_cons]
    by_cases hj : j ∈ keys
    · rw [List.filter_cons_of_neg (by simpa using hj), ih]
      by_cases hk : k = j
      · rw [hk, if_pos hj, if_pos hj]
      · rw [if_neg hk]
    · rw [List.filter_cons_of_pos (by simpa using hj), get?_cons, ih]
      by_cases hk : k = j
      · rw [if_pos hk, if_pos hk, if_neg (hk ▸ hj)]
      · rw [if_neg hk, if_neg hk]

/-- The keys ascend, so that none of them is there twice. -/
def Ascending (fields : Fields) : Prop := fields.Pairwise fun a b => a.1 < b.1

theorem Ascending.nodup (h : fields.Ascending) : (fields.map Prod.fst).Nodup := by
  apply List.pairwise_map.2
  apply h.imp
  intro a b hlt he
  exact String.lt_irrefl b.1 (he ▸ hlt)

theorem Ascending.without (h : fields.Ascending) (keys : List String) :
    (fields.without keys).Ascending :=
  h.filter _

theorem mem_insert {field : String × Json} (h : field ∈ fields.insert key value) :
    field = (key, value) ∨ field ∈ fields := by
  induction fields with
  | nil => exact .inl (List.mem_singleton.1 h)
  | cons first rest ih =>
    obtain ⟨j, v⟩ := first
    rw [insert] at h
    split at h
    · obtain hfield | hfield := List.mem_cons.1 h
      · exact .inl hfield
      · exact .inr (List.mem_cons_of_mem _ hfield)
    · split at h
      · exact List.mem_cons.1 h
      · obtain hfield | hfield := List.mem_cons.1 h
        · exact .inr (hfield ▸ List.mem_cons_self)
        · exact (ih hfield).imp_right (List.mem_cons_of_mem _)

theorem Ascending.insert (h : fields.Ascending) (key : String) (value : Json) :
    (fields.insert key value).Ascending := by
  induction fields with
  | nil => exact List.pairwise_singleton ..
  | cons first rest ih =>
    obtain ⟨j, v⟩ := first
    obtain ⟨hj, hrest⟩ := List.pairwise_cons.1 h
    rw [Fields.insert]
    split
    · rename_i hkey
      subst hkey
      exact List.pairwise_cons.2 ⟨hj, hrest⟩
    · rename_i hne
      split
      · rename_i hlt
        apply List.pairwise_cons.2 ⟨?_, h⟩
        intro field hfield
        obtain rfl | hfield := List.mem_cons.1 hfield
        · exact hlt
        · exact String.lt_trans hlt (hj field hfield)
      · rename_i hlt
        apply List.pairwise_cons.2 ⟨?_, ih hrest⟩
        intro field hfield
        obtain rfl | hfield := mem_insert hfield
        · apply Decidable.byContradiction
          intro hge
          exact hne (String.le_antisymm (String.not_lt.1 hge) (String.not_lt.1 hlt))
        · exact hj field hfield

theorem Ascending.insertAll (h : fields.Ascending) (others : Fields) :
    (fields.insertAll others).Ascending := by
  induction others generalizing fields with
  | nil => exact h
  | cons field rest ih => exact ih (h.insert ..)

theorem ascending_ofList (fields : Fields) : (ofList fields).Ascending :=
  Ascending.insertAll List.Pairwise.nil fields

theorem mem_insertAll {field : String × Json} (h : field ∈ fields.insertAll others) :
    field ∈ others ∨ field ∈ fields := by
  induction others generalizing fields with
  | nil => exact .inr h
  | cons first rest ih =>
    obtain hfield | hfield := ih h
    · exact .inl (List.mem_cons_of_mem _ hfield)
    · obtain rfl | hfield := mem_insert hfield
      · exact .inl List.mem_cons_self
      · exact .inr hfield

theorem mem_of_mem_ofList {field : String × Json} (h : field ∈ ofList fields) : field ∈ fields :=
  (mem_insertAll h).resolve_right List.not_mem_nil

end ActivityBoard.Fields
