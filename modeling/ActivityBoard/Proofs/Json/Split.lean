import ActivityBoard.Proofs.Json.Fields
import Mathlib.Data.List.Sort

namespace ActivityBoard.Fields

variable {fields others extra entries : Fields} {known : List String} {key : String}

theorem Ascending.ext (hf : fields.Ascending) (ho : others.Ascending)
    (h : ∀ key, fields.get? key = others.get? key) : fields = others := by
  have : Std.Antisymm fun a b : String × Json => a.1 < b.1 :=
    ⟨fun a b hab hba => absurd (String.lt_trans hab hba) (String.lt_irrefl a.1)⟩
  have : Std.Irrefl fun a b : String × Json => a.1 < b.1 := ⟨fun a => String.lt_irrefl a.1⟩
  apply List.Pairwise.eq_of_mem_iff hf ho
  rintro ⟨key, value⟩
  rw [← get?_eq_some_iff_mem hf.nodup, h key, get?_eq_some_iff_mem ho.nodup]

theorem Ascending.ofList_eq (h : fields.Ascending) : ofList fields = fields :=
  Ascending.ext (ascending_ofList fields) h fun key => get?_ofList h.nodup key

/-- Fields that may stand beside the known ones: by ascending key, and none of them is known. -/
structure Unknown (known : List String) (extra : Fields) : Prop where
  ascending : extra.Ascending
  get?_eq_none : ∀ key ∈ known, extra.get? key = none

theorem Ascending.unknown_without (h : fields.Ascending) (known : List String) :
    Unknown known (fields.without known) where
  ascending := h.without known
  get?_eq_none key hkey := by rw [get?_without, if_pos hkey]

theorem Unknown.get?_insertAll (h : Unknown known extra) (he : (entries.map Prod.fst).Nodup)
    (hkey : key ∈ known) : ((ofList entries).insertAll extra).get? key = entries.get? key := by
  rw [Fields.get?_insertAll _ h.ascending.nodup, h.get?_eq_none key hkey, Option.none_or,
    get?_ofList he]

theorem Unknown.without_insertAll (h : Unknown known extra) (he : entries.map Prod.fst ⊆ known) :
    ((ofList entries).insertAll extra).without known = extra := by
  apply (((ascending_ofList entries).insertAll extra).without known).ext h.ascending
  intro key
  rw [get?_without]
  split
  · rename_i hkey
    exact (h.get?_eq_none key hkey).symm
  · rename_i hkey
    have hnone : (ofList entries).get? key = none := by
      apply Fields.get?_eq_none
      intro hm
      obtain ⟨field, hfield, rfl⟩ := List.mem_map.1 hm
      exact hkey (he (List.mem_map_of_mem (mem_of_mem_ofList hfield)))
    rw [Fields.get?_insertAll _ h.ascending.nodup, hnone, Option.or_none]

end ActivityBoard.Fields
