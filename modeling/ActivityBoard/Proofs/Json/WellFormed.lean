import ActivityBoard.Proofs.Json.Canonical

/-!
Values that a board may write. They are stored whole if their integers are no longer than 64 bits,
which is a question of what was added up in them.
-/
namespace ActivityBoard

namespace Json

mutual

def integers : Json → List Int
  | .int n => [n]
  | .arr items => itemIntegers items
  | .obj fields => fieldIntegers fields
  | _ => []

def itemIntegers : List Json → List Int
  | [] => []
  | v :: rest => v.integers ++ itemIntegers rest

def fieldIntegers : List (String × Json) → List Int
  | [] => []
  | (_, v) :: rest => v.integers ++ fieldIntegers rest

end

/-- No integer in the value exceeds 64 bits. -/
def Within64 (v : Json) : Prop := ∀ n ∈ v.integers, leastInt ≤ n ∧ n ≤ greatestInt

instance : DecidablePred Within64 := fun v =>
  inferInstanceAs (Decidable (∀ n ∈ v.integers, leastInt ≤ n ∧ n ≤ greatestInt))

theorem integers_subset_of_item {items : List Json} {v : Json} (h : v ∈ items) :
    v.integers ⊆ itemIntegers items := by
  induction items with
  | nil => cases h
  | cons w rest ih =>
    rw [itemIntegers]
    obtain rfl | h := List.mem_cons.1 h
    · exact List.subset_append_left ..
    · exact List.Subset.trans (ih h) (List.subset_append_right ..)

theorem integers_subset_of_field {fields : Fields} {field : String × Json} (h : field ∈ fields) :
    field.2.integers ⊆ fieldIntegers fields := by
  induction fields with
  | nil => cases h
  | cons other rest ih =>
    rw [fieldIntegers]
    obtain rfl | h := List.mem_cons.1 h
    · exact List.subset_append_left ..
    · exact List.Subset.trans (ih h) (List.subset_append_right ..)

theorem Within64.item {items : List Json} {v : Json} (h : (arr items).Within64) (hv : v ∈ items) :
    v.Within64 := by
  intro n hn
  apply h
  rw [integers]
  exact integers_subset_of_item hv hn

theorem Within64.field {fields : Fields} {field : String × Json} (h : (obj fields).Within64)
    (hf : field ∈ fields) : field.2.Within64 := by
  intro n hn
  apply h
  rw [integers]
  exact integers_subset_of_field hf hn

/-- Objects have their fields in order, numbers are finite, and containers nest no deeper than
`depth`. -/
inductive WellFormed : Nat → Json → Prop where
  | null {depth : Nat} : WellFormed depth .null
  | bool {depth : Nat} (b : Bool) : WellFormed depth (.bool b)
  | int {depth : Nat} (n : Int) : WellFormed depth (.int n)
  | float {depth : Nat} {x : Binary64} : x.isFinite = true → WellFormed depth (.float x)
  | str {depth : Nat} (s : String) : WellFormed depth (.str s)
  | arr {depth : Nat} {items : List Json} : (∀ v ∈ items, WellFormed depth v) →
      WellFormed (depth + 1) (.arr items)
  | obj {depth : Nat} {fields : Fields} : fields.Ascending →
      (∀ field ∈ fields, WellFormed depth field.2) → WellFormed (depth + 1) (.obj fields)

variable {depth : Nat} {v : Json}

theorem Storable.wellFormed (h : Storable depth v) : WellFormed depth v := by
  induction h with
  | null => exact .null
  | bool b => exact .bool b
  | int _ _ => exact .int _
  | float hx => exact .float hx
  | str s => exact .str s
  | arr _ ih => exact .arr ih
  | obj hascending _ ih => exact .obj hascending ih

theorem WellFormed.canonical (h : WellFormed depth v) : v.Canonical := by
  induction h with
  | null => exact .null
  | bool b => exact .bool b
  | int n => exact .int n
  | float _ => exact .float _
  | str s => exact .str s
  | arr _ ih => exact .arr ih
  | obj hascending _ ih => exact .obj hascending ih

theorem WellFormed.storable (h : WellFormed depth v) (hv : v.Within64) : Storable depth v := by
  induction h with
  | null => exact .null
  | bool b => exact .bool b
  | int n =>
    obtain ⟨hlow, hhigh⟩ := hv n (by simp [integers])
    exact .int hlow hhigh
  | float hx => exact .float hx
  | str s => exact .str s
  | arr _ ih => exact .arr fun w hw => ih w hw (hv.item hw)
  | obj hascending _ ih => exact .obj hascending fun field hf => ih field hf (hv.field hf)

theorem wellFormed_ofFloat (x : Binary64) : WellFormed depth (ofFloat x) :=
  (storable_ofFloat x).wellFormed

theorem wellFormed_ofMetric (x : Binary64) : WellFormed depth (ofMetric x) := by
  rw [ofMetric]
  split
  · exact .int _
  · exact wellFormed_ofFloat x

end Json

namespace Fields

variable {depth : Nat} {f entries others : Fields} {key : String}

def WellFormed (depth : Nat) (f : Fields) : Prop := Json.WellFormed (depth + 1) (.obj f)

theorem wellFormed_iff :
    f.WellFormed depth ↔ f.Ascending ∧ ∀ field ∈ f, Json.WellFormed depth field.2 := by
  constructor
  · intro h
    cases h with
    | obj hf hfields => exact ⟨hf, hfields⟩
  · rintro ⟨hf, hfields⟩
    exact .obj hf hfields

theorem WellFormed.insertAll (h : f.WellFormed depth)
    (ho : ∀ field ∈ others, Json.WellFormed depth field.2) :
    (f.insertAll others).WellFormed depth := by
  obtain ⟨hascending, hfields⟩ := wellFormed_iff.1 h
  refine wellFormed_iff.2 ⟨hascending.insertAll others, fun field hm => ?_⟩
  obtain hm | hm := mem_insertAll hm
  · exact ho field hm
  · exact hfields field hm

theorem WellFormed.insert {v : Json} (h : f.WellFormed depth) (key : String)
    (hv : Json.WellFormed depth v) : (f.insert key v).WellFormed depth := by
  have hall : ∀ field ∈ [(key, v)], Json.WellFormed depth field.2 :=
    List.forall_mem_singleton.2 hv
  exact h.insertAll hall

theorem wellFormed_nil (depth : Nat) : WellFormed depth [] :=
  wellFormed_iff.2 ⟨List.Pairwise.nil, fun _ h => absurd h List.not_mem_nil⟩

theorem wellFormed_ofList (h : ∀ field ∈ entries, Json.WellFormed depth field.2) :
    (ofList entries).WellFormed depth :=
  (wellFormed_nil depth).insertAll h

end Fields

end ActivityBoard
