import ActivityBoard.Json.Reader
import ActivityBoard.Proofs.Json.Fields

/-!
Values whose objects list their fields by ascending key, and values that can be written without
loss. What is read from a text is both.
-/
namespace ActivityBoard

section Ensures

variable {ε α β : Type} {x : Except ε α} {f : α → Except ε β} {P : β → Prop} {Q : α → Prop}

def Ensures (x : Except ε α) (Q : α → Prop) : Prop := ∀ a, x = .ok a → Q a

theorem ensures_ok {a : α} (h : Q a) : Ensures (.ok a : Except ε α) Q := by
  intro b hb
  cases hb
  exact h

theorem ensures_error (e : ε) : Ensures (.error e) Q := by
  intro b hb
  cases hb

theorem exists_of_bind_eq_ok {b : β} (h : x >>= f = .ok b) : ∃ a, x = .ok a ∧ f a = .ok b := by
  cases x with
  | error e => cases h
  | ok a => exact ⟨a, rfl, h⟩

theorem Ensures.bind (hx : Ensures x Q) (hf : ∀ a, Q a → Ensures (f a) P) :
    Ensures (x >>= f) P := by
  intro b hb
  obtain ⟨a, ha, hfa⟩ := exists_of_bind_eq_ok hb
  exact hf a (hx a ha) b hfa

theorem ensures_trivial (x : Except ε α) : Ensures x fun _ => True :=
  fun _ _ => trivial

end Ensures

namespace Json

inductive Canonical : Json → Prop where
  | null : Canonical .null
  | bool (b : Bool) : Canonical (.bool b)
  | int (n : Int) : Canonical (.int n)
  | float (x : Binary64) : Canonical (.float x)
  | str (s : String) : Canonical (.str s)
  | arr {items : List Json} : (∀ v ∈ items, Canonical v) → Canonical (.arr items)
  | obj {fields : Fields} : fields.Ascending → (∀ field ∈ fields, Canonical field.2) →
      Canonical (.obj fields)

theorem canonical_arr_iff {items : List Json} :
    (arr items).Canonical ↔ ∀ v ∈ items, v.Canonical := by
  constructor
  · intro h
    cases h with
    | arr hitems => exact hitems
  · exact Canonical.arr

theorem canonical_obj_iff {fields : Fields} :
    (obj fields).Canonical ↔ fields.Ascending ∧ ∀ field ∈ fields, field.2.Canonical := by
  constructor
  · intro h
    cases h with
    | obj hfields hvalues => exact ⟨hfields, hvalues⟩
  · rintro ⟨hfields, hvalues⟩
    exact .obj hfields hvalues

/-- Values of which nothing is lost when they are written, `depth` being how deep containers
nest. -/
inductive Storable : Nat → Json → Prop where
  | null {depth : Nat} : Storable depth .null
  | bool {depth : Nat} (b : Bool) : Storable depth (.bool b)
  | int {depth : Nat} {n : Int} : leastInt ≤ n → n ≤ greatestInt → Storable depth (.int n)
  | float {depth : Nat} {x : Binary64} : x.isFinite = true → Storable depth (.float x)
  | str {depth : Nat} (s : String) : Storable depth (.str s)
  | arr {depth : Nat} {items : List Json} : (∀ v ∈ items, Storable depth v) →
      Storable (depth + 1) (.arr items)
  | obj {depth : Nat} {fields : Fields} : fields.Ascending →
      (∀ field ∈ fields, Storable depth field.2) → Storable (depth + 1) (.obj fields)

section Yields

variable {α : Type} {P : α → Prop} {close : Char}

def Yields (read : Reading α) (P : α → Prop) : Prop :=
  ∀ cs, Ensures (read cs) fun result => P result.1

theorem yields_readEntries {entry : List α → Reading α} (h : ∀ earlier, Yields (entry earlier) P)
    (fuel : Nat) (earlier : List α) :
    Yields (readEntries entry close fuel earlier) fun xs => ∀ x ∈ xs, P x := by
  induction fuel generalizing earlier with
  | zero => exact fun _ => ensures_error _
  | succ fuel ih =>
    intro cs
    rw [readEntries]
    refine (h earlier _).bind fun result hx => ?_
    obtain ⟨x, rest⟩ := result
    dsimp only
    split
    · exact ensures_error _
    · split
      · apply ensures_ok
        intro y hy
        rw [List.mem_singleton.1 hy]
        exact hx
      · split
        · refine (ih _ _).bind fun result hxs => ?_
          apply ensures_ok
          intro y hy
          obtain rfl | hy := List.mem_cons.1 hy
          · exact hx
          · exact hxs y hy
        · exact ensures_error _

theorem yields_readContainer {entry : List α → Reading α}
    (h : ∀ earlier, Yields (entry earlier) P) (fuel : Nat) :
    Yields (readContainer entry close fuel) fun xs => ∀ x ∈ xs, P x := by
  intro cs
  rw [readContainer]
  split
  · exact ensures_error _
  · split
    · apply ensures_ok
      intro x hx
      cases hx
    · exact yields_readEntries h fuel [] cs

theorem yields_readField {value : String → Except TextError (Reading α)}
    (h : ∀ key, Ensures (value key) fun read => Yields read P) :
    Yields (readField value) fun field => P field.2 := by
  intro cs
  unfold readField
  split
  · split
    · exact ensures_error _
    · split
      · exact ensures_error _
      · refine (h _).bind fun read hread => ?_
        refine (ensures_trivial _).bind fun rest _ => ?_
        refine (hread rest).bind fun result hv => ?_
        exact ensures_ok hv
  · exact ensures_error _

end Yields

section Texts

variable {depth : Nat} {v : Json}

theorem storable_ofFloat (x : Binary64) : Storable depth (ofFloat x) := by
  rw [ofFloat]
  split
  · rename_i hx
    exact .float hx
  · exact .null

theorem storable_ofInteger (negative : Bool) (n : Nat) : Storable depth (ofInteger negative n) := by
  rw [ofInteger]
  generalize (if negative then -(n : Int) else n) = value
  dsimp only
  split
  · rename_i h
    exact .int h.1 h.2.1
  · exact storable_ofFloat _

theorem storable_of_value?_numeral {numeral : Numeral} (h : numeral.value? = some v) :
    Storable depth v := by
  rw [Numeral.value?] at h
  split at h
  · cases h
  · cases h
    split
    · exact storable_ofInteger ..
    · exact storable_ofFloat _

theorem storable_of_value? {scalar : Scalar} (h : scalar.value? = some v) : Storable depth v := by
  cases scalar with
  | null =>
    cases h
    exact .null
  | bool b =>
    cases h
    exact .bool b
  | number numeral => exact storable_of_value?_numeral h
  | str pieces =>
    obtain ⟨s, _, rfl⟩ := Option.map_eq_some_iff.1 h
    exact .str s

theorem yields_readLeaf (depth : Nat) : Yields readLeaf (Storable depth) := by
  intro cs
  rw [readLeaf]
  split
  · exact ensures_error _
  · split
    · exact ensures_error _
    · rename_i h
      exact ensures_ok (storable_of_value? h)

theorem storable_object {fields : Fields} (h : ∀ field ∈ fields, Storable depth field.2) :
    Storable (depth + 1) (.obj (Fields.ofList fields)) := by
  apply Storable.obj (Fields.ascending_ofList fields)
  intro field hfield
  exact h field (Fields.mem_of_mem_ofList hfield)

theorem yields_readValue (fuel depth : Nat) : Yields (readValue fuel depth) (Storable depth) := by
  induction depth with
  | zero =>
    intro cs
    unfold readValue
    split
    · exact ensures_error _
    · exact ensures_error _
    · contradiction
    · contradiction
    · exact yields_readLeaf 0 _
  | succ depth ih =>
    have hfield : Yields (readField fun _ => .ok (readValue fuel depth))
        fun field => Storable depth field.2 := yields_readField fun _ => ensures_ok ih
    intro cs
    unfold readValue
    split
    · contradiction
    · contradiction
    · rename_i rest hdepth
      cases hdepth
      refine (yields_readContainer (fun _ => ih) fuel _).bind fun result hitems => ?_
      exact ensures_ok (Storable.arr hitems)
    · rename_i rest hdepth
      cases hdepth
      refine (yields_readContainer (fun _ => hfield) fuel _).bind fun result hfields => ?_
      exact ensures_ok (storable_object hfields)
    · exact yields_readLeaf (depth + 1) _

theorem storable_of_ofText? {text : String} (h : ofText? text = some v) :
    Storable depthLimit v := by
  have hread : Ensures (decodeText readValue text) (Storable depthLimit) := by
    rw [decodeText]
    refine (yields_readValue _ _ _).bind fun result hv => ?_
    dsimp only
    split
    · exact ensures_ok hv
    · exact ensures_error _
  rw [ofText?] at h
  cases hd : decodeText readValue text with
  | error e =>
    rw [hd] at h
    cases h
  | ok w =>
    rw [hd] at h
    cases h
    exact hread _ hd

theorem Storable.canonical (h : Storable depth v) : v.Canonical := by
  induction h with
  | null => exact .null
  | bool b => exact .bool b
  | int _ _ => exact .int _
  | float _ => exact .float _
  | str s => exact .str s
  | arr _ ih => exact .arr ih
  | obj hascending _ ih => exact .obj hascending ih

theorem canonical_of_ofText? {text : String} (h : ofText? text = some v) : v.Canonical :=
  (storable_of_ofText? h).canonical

end Texts

end Json

end ActivityBoard
