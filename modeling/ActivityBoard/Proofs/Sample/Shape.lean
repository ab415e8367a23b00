import ActivityBoard.Json.Printer
import ActivityBoard.Proofs.Json.Fields
import ActivityBoard.Proofs.Sample.Reading
import ActivityBoard.Sample.Basic

/-!
Which documents are samples. Only sections, lists, and a few texts and metrics in their rows have a
shape that can be wrong; whatever stands in a counter or under an unknown key is accepted.
-/
namespace ActivityBoard

namespace Json

def IsObject (v : Json) : Prop := ∃ f, v = .obj f

def IsText (v : Json) : Prop := ∃ s, v = .str s

def IsRows (row : Fields → Prop) (v : Json) : Prop :=
  ∃ rows : List Fields, v = .arr (rows.map .obj) ∧ ∀ r ∈ rows, row r

theorem isRows_arr_iff {row : Fields → Prop} {items : List Json} :
    (arr items).IsRows row ↔ ∀ item ∈ items, ∃ r, item = .obj r ∧ row r := by
  constructor
  · rintro ⟨rows, hitems, h⟩ item hitem
    cases hitems
    obtain ⟨r, hr, rfl⟩ := List.mem_map.1 hitem
    exact ⟨r, rfl, h r hr⟩
  · intro h
    induction items with
    | nil => exact ⟨[], rfl, fun r hr => by cases hr⟩
    | cons item items ih =>
      obtain ⟨⟨r, rfl, hr⟩, hrest⟩ := List.forall_mem_cons.1 h
      obtain ⟨rows, hitems, hrows⟩ := ih hrest
      injection hitems with hitems
      subst hitems
      exact ⟨r :: rows, rfl, List.forall_mem_cons.2 ⟨hr, hrows⟩⟩

end Json

namespace Fields

variable {α : Type} {f : Fields} {key : String}

def Allows (p : Json → Prop) (f : Fields) (key : String) : Prop :=
  ∀ v, f.get? key = some v → p v

theorem allows_congr {p q : Json → Prop} (h : ∀ v, p v ↔ q v) :
    f.Allows p key ↔ f.Allows q key :=
  forall_congr' fun v => imp_congr_right fun _ => h v

theorem allows_insert {p : Json → Prop} {k : String} (h : k ≠ key) (w : Json) :
    (f.insert k w).Allows p key ↔ f.Allows p key := by
  unfold Allows
  rw [get?_insert, if_neg h.symm]

theorem allows_insert_self {p : Json → Prop} {w : Json} :
    (f.insert key w).Allows p key ↔ p w := by
  unfold Allows
  rw [get?_insert, if_pos rfl]
  simp

theorem allows_of_get? {p : Json → Prop} {w : Json} (h : f.get? key = some w) :
    f.Allows p key ↔ p w := by
  unfold Allows
  rw [h]
  simp

theorem isSome_text? : (f.text? key).isSome ↔ f.Allows Json.IsText key := by
  unfold text? Allows
  cases f.get? key with
  | none => simp
  | some v => cases v <;> simp [Json.str?, Json.IsText]

theorem isSome_metric? :
    (f.metric? key).isSome ↔ f.Allows (fun v => (Metric.ofJson? v).isSome) key := by
  unfold metric? value Allows
  cases f.get? key <;> simp [Metric.ofJson?]

theorem isSome_required? {make : Fields → α} :
    (f.required? make key).isSome ↔ f.Allows Json.IsObject key := by
  unfold required? Allows
  cases f.get? key with
  | none => simp
  | some v => cases v <;> simp [Json.fields?, Json.IsObject]

theorem isSome_section? {make : Fields → α} :
    (f.section? make key).isSome ↔ f.Allows (fun v => v = .null ∨ v.IsObject) key := by
  unfold section? value Allows
  cases f.get? key with
  | none => simp
  | some v => cases v <;> simp [Json.IsObject]

theorem isSome_bind_iff {β : Type} {x : Option α} {g : α → Option β} {p q : Prop}
    (hx : x.isSome ↔ p) (hg : ∀ a, (g a).isSome ↔ q) : (x.bind g).isSome ↔ p ∧ q := by
  cases x with
  | none =>
    have hp : ¬ p := fun h => by cases hx.2 h
    simp [hp]
  | some a =>
    have hp : p := hx.1 rfl
    simp [hp, hg a]

theorem isSome_mapM {row : Fields → Option α} {items : List Json} :
    (items.mapM fun item : Json => item.fields?.bind row).isSome ↔
      ∃ rows : List Fields, items = rows.map .obj ∧ ∀ r ∈ rows, (row r).isSome := by
  induction items with
  | nil => simp
  | cons item items ih =>
    rw [List.mapM_cons]
    refine (isSome_bind_iff Iff.rfl fun _ =>
      isSome_bind_iff ih fun _ => iff_true_intro rfl).trans ?_
    constructor
    · rintro ⟨hitem, ⟨rows, rfl, hrows⟩, -⟩
      cases item with
      | obj r => exact ⟨r :: rows, rfl, List.forall_mem_cons.2 ⟨hitem, hrows⟩⟩
      | _ => cases hitem
    · rintro ⟨rows, hrows, h⟩
      cases rows with
      | nil => cases hrows
      | cons r rows =>
        cases hrows
        obtain ⟨hr, h⟩ := List.forall_mem_cons.1 h
        exact ⟨hr, ⟨rows, rfl, h⟩, trivial⟩

theorem isSome_rows? {row : Fields → Option α} :
    (f.rows? row key).isSome ↔ f.Allows (Json.IsRows fun r => (row r).isSome) key := by
  unfold rows? Allows
  cases f.get? key with
  | none => simp
  | some v => cases v <;> simp [Json.items?, Json.IsRows, isSome_mapM]

end Fields

namespace Sample

def sections : List String := ["CPL", "MEM", "PSI"]

def lists : List String :=
  ["cpu", "LVM", "DSK", "NET", "NUM", "NUC", "LLC", "PRG", "PRC", "PRM", "PRD"]

/-- The keys of the rows in a list under which a text must stand. -/
def texts : String → List String
  | "LVM" => ["lvmname"]
  | "PRG" => ["name", "state", "cmdline"]
  | _ => []

/-- The keys of the rows in a list under which a metric must stand. -/
def metrics : String → List String
  | "NUM" => ["frag"]
  | "LLC" => ["occupancy"]
  | _ => []

structure RowFits (list : String) (row : Fields) : Prop where
  texts : ∀ key ∈ texts list, row.Allows Json.IsText key
  metrics : ∀ key ∈ metrics list, row.Allows (fun v => (Metric.ofJson? v).isSome) key

structure Fits (f : Fields) : Prop where
  cpu : f.Allows Json.IsObject "CPU"
  sections : ∀ key ∈ sections, f.Allows (fun v => v = .null ∨ v.IsObject) key
  lists : ∀ key ∈ lists, f.Allows (Json.IsRows (RowFits key)) key

theorem rowFits_iff {list : String} {row : Fields} : RowFits list row ↔
    (∀ key ∈ texts list, row.Allows Json.IsText key) ∧
      ∀ key ∈ metrics list, row.Allows (fun v => (Metric.ofJson? v).isSome) key :=
  ⟨fun h => ⟨h.texts, h.metrics⟩, fun h => ⟨h.1, h.2⟩⟩

theorem isSome_volume {row : Fields} :
    (LogicalVolume.ofFields? row).isSome ↔ RowFits "LVM" row := by
  rw [LogicalVolume.ofFields?, Option.isSome_map, Fields.isSome_text?, rowFits_iff]
  simp [texts, metrics]

theorem isSome_numaMemory {row : Fields} :
    (NumaMemory.ofFields? row).isSome ↔ RowFits "NUM" row := by
  rw [NumaMemory.ofFields?, Option.isSome_map, Fields.isSome_metric?, rowFits_iff]
  simp [texts, metrics]

theorem isSome_cache {row : Fields} : (CacheDomain.ofFields? row).isSome ↔ RowFits "LLC" row := by
  rw [CacheDomain.ofFields?, Option.isSome_map, Fields.isSome_metric?, rowFits_iff]
  simp [texts, metrics]

theorem isSome_identity {row : Fields} : (Identity.ofFields? row).isSome ↔ RowFits "PRG" row := by
  unfold Identity.ofFields?
  refine (Fields.isSome_bind_iff Fields.isSome_text? fun _ =>
    Fields.isSome_bind_iff Fields.isSome_text? fun _ =>
      Fields.isSome_bind_iff Fields.isSome_text? fun _ => iff_true_intro rfl).trans ?_
  rw [rowFits_iff]
  simp [texts, metrics]

theorem isSome_some {α : Type} {list : String} (make : Fields → α) (h : texts list = [])
    (h' : metrics list = []) (row : Fields) : (some (make row)).isSome ↔ RowFits list row := by
  rw [rowFits_iff, h, h']
  simp

section Lists

variable {α : Type} {f : Fields} {key : String} {row : Fields → Option α}

theorem isSome_list (h : ∀ r, (row r).isSome ↔ RowFits key r) :
    (f.rows? row key).isSome ↔ f.Allows (Json.IsRows (RowFits key)) key := by
  rw [Fields.isSome_rows?]
  apply Fields.allows_congr
  intro v
  simp only [Json.IsRows, h]

end Lists

theorem isSome_ofFields? {f : Fields} : (ofFields? f).isSome ↔ Fits f := by
  unfold ofFields?
  -- One part of the object after the other; the reading stops at the first that does not fit.
  refine (Fields.isSome_bind_iff Fields.isSome_required? fun _ =>
    Fields.isSome_bind_iff (isSome_list (isSome_some _ rfl rfl)) fun _ =>
    Fields.isSome_bind_iff Fields.isSome_section? fun _ =>
    Fields.isSome_bind_iff Fields.isSome_section? fun _ =>
    Fields.isSome_bind_iff Fields.isSome_section? fun _ =>
    Fields.isSome_bind_iff (isSome_list fun _ => isSome_volume) fun _ =>
    Fields.isSome_bind_iff (isSome_list (isSome_some _ rfl rfl)) fun _ =>
    Fields.isSome_bind_iff (isSome_list (isSome_some _ rfl rfl)) fun _ =>
    Fields.isSome_bind_iff (isSome_list fun _ => isSome_numaMemory) fun _ =>
    Fields.isSome_bind_iff (isSome_list (isSome_some id rfl rfl)) fun _ =>
    Fields.isSome_bind_iff (isSome_list fun _ => isSome_cache) fun _ =>
    Fields.isSome_bind_iff (isSome_list fun _ => isSome_identity) fun _ =>
    Fields.isSome_bind_iff (isSome_list (isSome_some _ rfl rfl)) fun _ =>
    Fields.isSome_bind_iff (isSome_list (isSome_some _ rfl rfl)) fun _ =>
    Fields.isSome_bind_iff (isSome_list (isSome_some _ rfl rfl)) fun _ =>
      iff_true_intro rfl).trans ?_
  constructor
  · rintro ⟨hcpu, hcores, hload, hmemory, hpressure, hvolumes, hdisks, hinterfaces, hnuma, hnuc,
      hcaches, hidentities, huse, hmemoryUse, hdiskUse, -⟩
    refine ⟨hcpu, ?_, ?_⟩
    · simp [sections, hload, hmemory, hpressure]
    · simp [lists, hcores, hvolumes, hdisks, hinterfaces, hnuma, hnuc, hcaches, hidentities, huse,
        hmemoryUse, hdiskUse]
  · rintro ⟨hcpu, hsections, hlists⟩
    simp only [sections, List.forall_mem_cons] at hsections
    simp only [lists, List.forall_mem_cons] at hlists
    simp [hcpu, hsections, hlists]

theorem exists_ofJson_obj_iff {f : Fields} : (∃ s, ofJson (.obj f) = .ok s) ↔ Fits f := by
  simp only [ofJson_obj_eq_ok_iff, ← isSome_ofFields?, Option.isSome_iff_exists]

theorem ofJson_obj_of_not_fits {f : Fields} (h : ¬ Fits f) :
    ofJson (.obj f) = .error .wrongShape := by
  rw [← isSome_ofFields?, Option.not_isSome_iff_eq_none] at h
  rw [ofJson_obj, h, Option.elim_none]

/-- `g` is `f` with another value under one key of an object in it, a key without a shape. -/
inductive Varies (f : Fields) : Fields → Prop where
  | top {key : String} (w : Json) : key ∉ "CPU" :: sections ++ lists → Varies f (f.insert key w)
  | inSection {key : String} {inner : Fields} (k : String) (w : Json) :
      key ∈ "CPU" :: sections → f.get? key = some (.obj inner) →
      Varies f (f.insert key (.obj (inner.insert k w)))
  | inRow {key : String} {front back : List Json} {row : Fields} {k : String} (w : Json) :
      key ∈ lists → f.get? key = some (.arr (front ++ .obj row :: back)) →
      k ∉ texts key ++ metrics key →
      Varies f (f.insert key (.arr (front ++ .obj (row.insert k w) :: back)))

def shape (key : String) (v : Json) : Prop :=
  if key ∈ lists then Json.IsRows (RowFits key) v
  else if key ∈ sections then v = .null ∨ v.IsObject
  else v.IsObject

theorem shape_of_list {key : String} (h : key ∈ lists) :
    shape key = Json.IsRows (RowFits key) := by
  funext v
  exact if_pos h

theorem fits_iff {f : Fields} :
    Fits f ↔ ∀ key ∈ "CPU" :: sections ++ lists, f.Allows (shape key) key := by
  have hcpu : shape "CPU" = Json.IsObject := by
    funext v
    rw [shape, if_neg (by decide), if_neg (by decide)]
  have hsection : ∀ key ∈ sections, shape key = fun v => v = .null ∨ v.IsObject := by
    intro key hkey
    have hlist : ∀ key ∈ sections, key ∉ lists := by decide
    funext v
    rw [shape, if_neg (hlist key hkey), if_pos hkey]
  rw [List.cons_append, List.forall_mem_cons, List.forall_mem_append, hcpu]
  constructor
  · rintro ⟨hobject, hsections, hlists⟩
    refine ⟨hobject, fun key hkey => ?_, fun key hkey => ?_⟩
    · rw [hsection key hkey]
      exact hsections key hkey
    · rw [shape_of_list hkey]
      exact hlists key hkey
  · rintro ⟨hobject, hsections, hlists⟩
    refine ⟨hobject, fun key hkey => ?_, fun key hkey => ?_⟩
    · rw [← hsection key hkey]
      exact hsections key hkey
    · rw [← shape_of_list hkey]
      exact hlists key hkey

theorem shape_of_section {key : String} {f : Fields} (h : key ∈ "CPU" :: sections) :
    shape key (.obj f) := by
  have hlist : ∀ key ∈ "CPU" :: sections, key ∉ lists := by decide
  rw [shape, if_neg (hlist key h)]
  split
  · exact .inr ⟨f, rfl⟩
  · exact ⟨f, rfl⟩

section Varies

variable {f g : Fields} {key k : String} {w : Json}

theorem fits_insert {v : Json} (hv : f.get? key = some v) (h : shape key w ↔ shape key v) :
    Fits (f.insert key w) ↔ Fits f := by
  rw [fits_iff, fits_iff]
  apply forall_congr'
  intro j
  apply imp_congr_right
  intro _
  by_cases hj : key = j
  · subst hj
    rw [Fields.allows_insert_self, Fields.allows_of_get? hv]
    exact h
  · exact Fields.allows_insert hj w

theorem rowFits_insert {row : Fields} (h : k ∉ texts key ++ metrics key) :
    RowFits key (row.insert k w) ↔ RowFits key row := by
  rw [List.mem_append, not_or] at h
  rw [rowFits_iff, rowFits_iff]
  have hkey {keys : List String} (hk : k ∉ keys) (p : Json → Prop) :
      (∀ j ∈ keys, (row.insert k w).Allows p j) ↔ ∀ j ∈ keys, row.Allows p j := by
    apply forall_congr'
    intro j
    apply imp_congr_right
    intro hj
    exact Fields.allows_insert (ne_of_mem_of_not_mem hj hk).symm w
  exact and_congr (hkey h.1 _) (hkey h.2 _)

theorem Varies.fits_iff (h : Varies f g) : Fits g ↔ Fits f := by
  cases h with
  | top w hkey =>
    rw [Sample.fits_iff, Sample.fits_iff]
    apply forall_congr'
    intro j
    apply imp_congr_right
    intro hj
    exact Fields.allows_insert (ne_of_mem_of_not_mem hj hkey).symm w
  | inSection k w hkey hinner =>
    apply fits_insert hinner
    exact iff_of_true (shape_of_section hkey) (shape_of_section hkey)
  | inRow w hkey hrows hk =>
    apply fits_insert hrows
    rw [shape_of_list hkey, Json.isRows_arr_iff, Json.isRows_arr_iff]
    simp only [List.forall_mem_append, List.forall_mem_cons, Json.obj.injEq, exists_eq_left',
      rowFits_insert hk]

end Varies

/-- The document is this value, in its envelope or without one. -/
def Encloses (v inner : Json) : Prop := v = .arr [inner] ∨ v = inner ∧ ∀ items, v ≠ .arr items

theorem Encloses.ofJson_obj {v : Json} {f : Fields} (h : Encloses v (.obj f)) :
    ofJson v = ofJson (.obj f) := by
  obtain rfl | ⟨rfl, -⟩ := h <;> rfl

/-- What becomes of the document `v`. -/
structure Judged (v : Json) (result : Except SampleError Sample) : Prop where
  envelope : ∀ items, v = .arr items → items.length ≠ 1 →
    result = .error (.envelope items.length)
  opened : ∀ item, v = .arr [item] → (∀ items, item ≠ .arr items) → result = ofJson item
  notAnObject : ∀ inner, Encloses v inner → (∀ f, inner ≠ .obj f) → result = .error .notAnObject
  object : ∀ f, Encloses v (.obj f) → ((∃ s, result = .ok s) ↔ Fits f)
  misfit : ∀ f, Encloses v (.obj f) → ¬ Fits f → result = .error .wrongShape
  varied : ∀ f g, Encloses v (.obj f) → Varies f g →
    ((∃ s, ofJson (.obj g) = .ok s) ↔ ∃ s, result = .ok s)

theorem judged_ofJson (v : Json) : Judged v (ofJson v) where
  envelope := by
    rintro items rfl hlength
    cases items with
    | nil => rfl
    | cons item items =>
      cases items with
      | nil => exact absurd rfl hlength
      | cons _ _ => rfl
  opened := by
    rintro item rfl hitem
    cases item with
    | arr items => exact absurd rfl (hitem items)
    | _ => rfl
  notAnObject := by
    rintro inner (rfl | ⟨rfl, harr⟩) hobj
    · cases inner with
      | obj f => exact absurd rfl (hobj f)
      | _ => rfl
    · cases v with
      | arr items => exact absurd rfl (harr items)
      | obj f => exact absurd rfl (hobj f)
      | _ => rfl
  object f h := by
    rw [h.ofJson_obj]
    exact exists_ofJson_obj_iff
  misfit f h hf := by
    rw [h.ofJson_obj]
    exact ofJson_obj_of_not_fits hf
  varied f g h hg := by
    rw [h.ofJson_obj, exists_ofJson_obj_iff, exists_ofJson_obj_iff, hg.fits_iff]

theorem judged_ofText {text : String} {v : Json} (h : Json.ofText? text = some v) :
    Judged v (ofText text) := by
  rw [ofText, h]
  exact judged_ofJson v

def motley : Json :=
  .arr [.obj [("CPL", .null), ("CPU", .obj [("hertz", .arr [.null]), ("nrcpu", .obj [])]),
    ("NUM", .arr [.obj [("frag", .bool true), ("used", .arr [])]]),
    ("PRG", .arr [.obj [("name", .str "(a)"), ("pid", .str "five")]]), ("host", .obj []),
    ("timestamp", .arr [])]]

theorem judged_ofText_motley : (∃ v, Json.ofText? motley.compact = some v ∧
    Judged v (ofText motley.compact)) ∧
    (ofText motley.compact).toOption.map (fun s => (s.timestamp, s.cpu.hertz)) = some (0, 0) := by
  have hread : (Json.ofText? motley.compact).isSome = true := by decide +kernel
  obtain ⟨v, hv⟩ := Option.isSome_iff_exists.1 hread
  exact ⟨⟨v, hv, judged_ofText hv⟩, by decide +kernel⟩

end Sample

end ActivityBoard
