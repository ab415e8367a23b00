import ActivityBoard.Proofs.Json.Fields

/-!
Objects in which the unknown fields of an input stand over known ones: where an unknown field has
the key of a known one, it hides it.
-/
namespace ActivityBoard.Fields

variable {known all : List String} {entries input output : Fields} {key : String} {value : Json}

/-- What the input has under a key that is none of the known ones. -/
def unknown? (input : Fields) (known : List String) (key : String) : Option Json :=
  if key ∈ known then none else input.get? key

theorem unknown?_of_mem (h : key ∈ known) : input.unknown? known key = none :=
  if_pos h

theorem unknown?_of_not_mem (h : key ∉ known) : input.unknown? known key = input.get? key :=
  if_neg h

theorem get?_overlay (hi : input.Ascending) (he : (entries.map Prod.fst).Nodup)
    (known : List String) (key : String) :
    ((ofList entries).insertAll (input.without known)).get? key =
      (input.unknown? known key).or (entries.get? key) := by
  rw [get?_insertAll _ (hi.without known).nodup, get?_without, get?_ofList he, unknown?]

theorem get?_overlay_of_mem (hi : input.Ascending) (he : (entries.map Prod.fst).Nodup)
    (hm : (key, value) ∈ entries) (hk : key ∉ known) :
    ((ofList entries).insertAll (input.without known)).get? key =
      (input.get? key).or (some value) := by
  rw [get?_overlay hi he, unknown?_of_not_mem hk, (get?_eq_some_iff_mem he).2 hm]

theorem get?_overlay_known (hi : input.Ascending) (he : (entries.map Prod.fst).Nodup)
    (hm : (key, value) ∈ entries) (hk : key ∈ known) :
    ((ofList entries).insertAll (input.without known)).get? key = some value := by
  rw [get?_overlay hi he, unknown?_of_mem hk, (get?_eq_some_iff_mem he).2 hm, Option.none_or]

/-- Under all but the known keys the output has what the input has. -/
def Keeps (known : List String) (input output : Fields) : Prop :=
  ∀ key, key ∉ known → output.get? key = input.get? key

theorem keeps_overlay (hi : input.Ascending) (hknown : known ⊆ all)
    (he : entries.map Prod.fst ⊆ all) :
    Keeps all input ((ofList entries).insertAll (input.without known)) := by
  intro key hkey
  have hnone : (ofList entries).get? key = none := by
    apply get?_eq_none
    intro hm
    obtain ⟨field, hfield, rfl⟩ := List.mem_map.1 hm
    exact hkey (he (List.mem_map_of_mem (mem_of_mem_ofList hfield)))
  rw [get?_insertAll _ (hi.without known).nodup, get?_without, hnone,
    if_neg fun hm => hkey (hknown hm), Option.or_none]

theorem Keeps.insert (h : Keeps known input output) (hk : key ∈ known) (value : Json) :
    Keeps known input (output.insert key value) := by
  intro j hj
  have hne : j ≠ key := fun he => hj (he ▸ hk)
  rw [get?_insert, if_neg hne]
  exact h j hj

theorem Keeps.insertAll (h : Keeps known input output) (he : entries.map Prod.fst ⊆ known) :
    Keeps known input (output.insertAll entries) := by
  -- On what is still to be put in; each field that goes in keeps what the output has.
  induction entries generalizing output with
  | nil => exact h
  | cons field rest ih =>
    obtain ⟨hfield, hrest⟩ := List.cons_subset.1 he
    exact ih (h.insert hfield field.2) hrest

theorem keeps_refl (known : List String) (input : Fields) : Keeps known input input :=
  fun _ _ => rfl

end ActivityBoard.Fields
