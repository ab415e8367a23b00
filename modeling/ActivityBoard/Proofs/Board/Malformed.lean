import ActivityBoard.Proofs.Board.WellFormed
import ActivityBoard.Proofs.Display.Errors

/-!
What becomes of a metric that is no number. The occupancy of a cache stays the text it was and is
reported; the fragmentation of a NUMA node is rounded, which leaves nothing of the text.
-/
namespace ActivityBoard

open Display

theorem exists_getElem?_of_forall₂ {α β : Type} {R : α → β → Prop} {as : List α} {bs : List β}
    (h : List.Forall₂ R as bs) {i : Nat} {a : α} (ha : as[i]? = some a) :
    ∃ b, bs[i]? = some b ∧ R a b := by
  induction h generalizing i with
  | nil => cases ha
  | @cons first other as bs hfirst _ ih =>
    cases i with
    | zero =>
      cases ha
      exact ⟨other, rfl, hfirst⟩
    | succ i => exact ih ha

/-- The rows are kept, and something holds of each input and the place of the row that is made of
it. -/
def KeptAt {α : Type} (limit : Nat) (made : Fields → α → Prop) (holds : Nat → Fields → Prop)
    (inputs : List Fields) (rows : List α) : Prop :=
  ∃ kept : List Fields, kept.Subperm inputs ∧ kept.length = min limit inputs.length ∧
    List.Forall₂ made kept rows ∧ ∀ i input, kept[i]? = some input → holds i input

theorem Kept.keptAt {α : Type} {limit : Nat} {made : Fields → α → Prop}
    {holds : Nat → Fields → Prop} {inputs : List Fields} {rows : List α}
    (h : Kept limit made inputs rows)
    (hh : ∀ i input row, input ∈ inputs → rows[i]? = some row → made input row → holds i input) :
    KeptAt limit made holds inputs rows := by
  obtain ⟨kept, hsub, hlength, hmade⟩ := h
  refine ⟨kept, hsub, hlength, hmade, fun i input hi => ?_⟩
  obtain ⟨row, hrow, hread⟩ := exists_getElem?_of_forall₂ hmade hi
  exact hh i input row (hsub.subset (List.mem_of_getElem? hi)) hrow hread

namespace Board

variable {f input : Fields} {limits : Limits} {b : Board} {raw : String} {i : Nat}

/-- The text stands in the document at this position, annotation leaves it, and it is reported there
once. -/
structure Reports (b : Board) (path : Path) (field raw : String) : Prop where
  held : ⟨path, .scalar (.str raw)⟩ ∈ nodes [] b.toJson
  left : ⟨path, .scalar (.str raw)⟩ ∈ nodes [] b.annotated.1
  reported : b.annotated.2.filter (fun e => e.path = path) = [⟨path, field, raw⟩]

/-- The document has the word for no number at this position, and nothing is reported there. -/
structure Undefined (b : Board) (path : Path) : Prop where
  held : ⟨path, .scalar (.str "NaN")⟩ ∈ nodes [] b.toJson
  shown : ⟨path, .scalar (.str "NaN%")⟩ ∈ nodes [] b.annotated.1
  unreported : ∀ e ∈ b.annotated.2, e.path ≠ path

theorem mem_annotated {n : Node} (hn : n ∈ nodes [] b.toJson) :
    n.rendered b.context ∈ nodes [] b.annotated.1 := by
  rw [annotated, (renders_annotate b.context b.toJson).1]
  exact List.mem_map_of_mem hn

theorem classify_occupancy : classify "occupancy" = some .percent := by decide

theorem classify_fragmentation : classify "frag" = some .percent := by decide

theorem getLast?_entry (list : String) (i : Nat) (key : String) :
    (Path.entry list i key).getLast? = some (.field key) := rfl

theorem reports_of_mem {list key : String} {kind : FieldKind} (hb : b.toJson.Canonical)
    (hkey : classify key = some kind) (hraw : Metric.ofText raw = .malformed raw)
    (hn : ⟨Path.entry list i key, .scalar (.str raw)⟩ ∈ nodes [] b.toJson) :
    b.Reports (Path.entry list i key) key raw := by
  have hmeasure := Node.measure?_eq_some (v := .str raw) (getLast?_entry list i key) hkey rfl
  have herror := Node.error?_of_malformed hmeasure rfl hraw
  have hnumber : Measure.isNumber ⟨key, kind, .str raw⟩ = false := by
    simp [Measure.isNumber, Json.reading?, Metric.ofJson?, hraw, Metric.value?]
  have hrendered : Node.rendered b.context ⟨Path.entry list i key, .scalar (.str raw)⟩ = _ :=
    Node.rendered_of_malformed hmeasure hnumber
  refine ⟨hn, ?_, ?_⟩
  · rw [← hrendered]
    exact mem_annotated hn
  · rw [annotated, errors_at b.context hb hn, herror, Option.toList_some]

theorem ofText_nan : Metric.ofText "NaN" = .number .nan := by decide +kernel

theorem undefined_of_mem {list key : String} (hb : b.toJson.Canonical)
    (hkey : classify key = some .percent)
    (hn : ⟨Path.entry list i key, .scalar (.str "NaN")⟩ ∈ nodes [] b.toJson) :
    b.Undefined (Path.entry list i key) := by
  have hmeasure := Node.measure?_eq_some (v := .str "NaN") (getLast?_entry list i key) hkey rfl
  have hrendered : (⟨Path.entry list i key, .scalar (.str "NaN")⟩ : Node).rendered b.context =
      ⟨Path.entry list i key, .scalar (.str "NaN%")⟩ := by
    simp [Node.rendered, hmeasure, render?, ofText_nan, percent]
  have herror : (⟨Path.entry list i key, .scalar (.str "NaN")⟩ : Node).error? = none := by
    simp [Node.error?, hmeasure, Measure.malformed?, Measure.isNumber, Json.reading?,
      Metric.ofJson?, ofText_nan, Metric.value?]
  refine ⟨hn, ?_, ?_⟩
  · rw [← hrendered]
    exact mem_annotated hn
  · intro e he hpath
    have hnone := errors_at b.context hb hn
    rw [herror, Option.toList_none, List.filter_eq_nil_iff] at hnone
    exact hnone e he (decide_eq_true hpath)

theorem occupancy_of_malformed {row : CacheDomain} (h : CacheDomain.ofFields? input = some row)
    (hraw : input.get? "occupancy" = some (.str raw)) (hm : Metric.ofText raw = .malformed raw) :
    row.occupancy = .malformed raw := by
  obtain ⟨m, hmetric, rfl⟩ := Option.map_eq_some_iff.1 h
  rw [Fields.metric?, Fields.value, hraw, Option.getD_some, Metric.ofJson?, hm] at hmetric
  exact (Option.some.inj hmetric).symm

theorem fragmentation_of_malformed {n : NumaNode} (h : ReadsNode input n)
    (hraw : input.get? "frag" = some (.str raw)) (hm : Metric.ofText raw = .malformed raw) :
    n.fragmentation = ⟨.nan, 2⟩ := by
  obtain ⟨node, j, hread, rfl⟩ := h
  obtain ⟨m, hmetric, rfl⟩ := Option.map_eq_some_iff.1 hread
  rw [Fields.metric?, Fields.value, hraw, Option.getD_some, Metric.ofJson?, hm] at hmetric
  obtain rfl := Option.some.inj hmetric
  rfl

theorem MadeFrom.mem_occupancy (h : MadeFrom f limits b) (hf : f.Canonical) {row : CacheDomain}
    (hi : input.Ascending) (hrow : b.caches[i]? = some row)
    (hread : CacheDomain.ofFields? input = some row) (hm : row.occupancy = .malformed raw) :
    ⟨Path.entry "LLC" i "occupancy", .scalar (.str raw)⟩ ∈ nodes [] b.toJson := by
  have hlist := h.get?_section hf (by decide) (by simp [written, Sample.rows] :
    ("LLC", .arr (b.caches.map fun row => .obj (CacheDomain.toFields row))) ∈ b.written)
  have hitem : (b.caches.map fun row => Json.obj (CacheDomain.toFields row))[i]? =
      some (.obj row.toFields) := by
    rw [List.getElem?_map, hrow, Option.map_some]
  have hfield := CacheDomain.get?_occupancy hi hread
  rw [hm] at hfield
  exact mem_nodes_entry hlist hitem hfield rfl

theorem MadeFrom.mem_fragmentation (h : MadeFrom f limits b) (hf : f.Canonical) {n : NumaNode}
    (hi : input.Ascending) (hrow : b.numaMemory[i]? = some n) (hread : ReadsNode input n)
    (hm : n.fragmentation = ⟨.nan, 2⟩) :
    ⟨Path.entry "NUM" i "frag", .scalar (.str "NaN")⟩ ∈ nodes [] b.toJson := by
  have hlist := h.get?_section hf (by decide) (by simp [written, Sample.rows] :
    ("NUM", .arr (b.numaMemory.map fun n => .obj (NumaNode.toFields n))) ∈ b.written)
  have hitem : (b.numaMemory.map fun n => Json.obj (NumaNode.toFields n))[i]? =
      some (.obj n.toFields) := by
    rw [List.getElem?_map, hrow, Option.map_some]
  have hfield := NumaNode.get?_fragmentation hi hread
  rw [hm] at hfield
  exact mem_nodes_entry hlist hitem hfield rfl

/-- What a viewer learns of the metrics that are no numbers, `f` being the input. -/
structure ShowsMalformed (f : Fields) (limits : Limits) (b : Board) : Prop where
  occupancy : KeptAt limits.llc (fun input row => CacheDomain.ofFields? input = some row)
    (fun i input => ∀ raw, input.get? "occupancy" = some (.str raw) →
      Metric.ofText raw = .malformed raw →
        b.Reports (Path.entry "LLC" i "occupancy") "occupancy" raw)
    (f.rowsAt "LLC") b.caches
  fragmentation : KeptAt limits.numa ReadsNode
    (fun i input => ∀ raw, input.get? "frag" = some (.str raw) →
      Metric.ofText raw = .malformed raw → b.Undefined (Path.entry "NUM" i "frag"))
    (f.rowsAt "NUM") b.numaMemory
  /-- An error is told by the text of its path, unless a key at the top looks like that text. -/
  apart : ∀ list ∈ ["LLC", "NUM"], (∀ key ∈ b.document.map Prod.fst, ApartFrom list key) →
    ∀ key, PlainKey key → ∀ i, ∀ e ∈ b.annotated.2,
      pathText e.path = list ++ "[" ++ Nat.repr i ++ "]." ++ key ↔ e.path = Path.entry list i key

theorem showsMalformed_of_ofText {text : String} {settings : Settings}
    (h : ofText text settings = .ok b) : ∃ f, Sample.source? text = some f ∧
      ShowsMalformed f settings.limits b := by
  obtain ⟨f, hsource, hf, hmade⟩ := madeFrom_of_ofText h
  have hb := (wellFormed_toJson h).canonical
  refine ⟨f, hsource, ?_, ?_, ?_⟩
  · apply hmade.caches.keptAt
    intro i input row hinput hrow hread raw hraw hm
    apply reports_of_mem hb classify_occupancy hm
    exact hmade.mem_occupancy hf (hf.rowsAt hinput).ascending hrow hread
      (occupancy_of_malformed hread hraw hm)
  · apply hmade.numaMemory.keptAt
    intro i input n hinput hrow hread raw hraw hm
    apply undefined_of_mem hb classify_fragmentation
    exact hmade.mem_fragmentation hf (hf.rowsAt hinput).ascending hrow hread
      (fragmentation_of_malformed hread hraw hm)
  · intro list hlist hapart key hkey i e he
    have hplain : ∀ list ∈ ["LLC", "NUM"], PlainKey list := by decide
    obtain ⟨k, hk, rest, hpath⟩ := exists_key_of_error he
    rw [hpath, ← Path.text_entry (hplain list hlist).1]
    exact ⟨Path.entry_of_text (hplain list hlist) hkey (hapart k hk), congrArg pathText⟩

def misleading : Json :=
  .obj [("LLC", .arr [.obj [("occupancy", .str "n/a")]]),
    ("LLC[0]", .obj [("occupancy", .str "n/a")]), ("NUM", .arr [.obj [("frag", .str "n/a")]])]

theorem showsMalformed_of_ofText_misleading :
    ∃ b, ofText misleading.compact { limits := { numa := 1, llc := 1 } } = .ok b ∧
      b.caches.map (·.occupancy) = [.malformed "n/a"] ∧ b.numaMemory.length = 1 ∧
      ∃ f, Sample.source? misleading.compact = some f ∧
        ShowsMalformed f { numa := 1, llc := 1 } b := by
  have hcheck : (ofText misleading.compact
      { limits := { numa := 1, llc := 1 } }).toOption.any (fun b =>
        decide (b.caches.map (·.occupancy) = [.malformed "n/a"] ∧
          b.numaMemory.length = 1)) = true := by decide +kernel
  obtain ⟨b, hb, hcaches, hnodes⟩ := exists_of_any_ofText hcheck
  exact ⟨b, hb, hcaches, hnodes, showsMalformed_of_ofText hb⟩

/-- The malformed fragmentation is gone from the document and nowhere reported, and the one cache
has two errors by the text of their paths. -/
theorem misleading_not_reported_once :
    Metric.ofText "n/a" = .malformed "n/a" ∧
    (ofText misleading.compact { limits := { numa := 1, llc := 1 } }).toOption.map (fun b =>
      ((b.document.get? "NUM").map Json.compact,
        b.annotated.2.map fun e => (pathText e.path, e.value))) =
    some (some "[\x7b\"frag\":\"NaN\",\"numanodeId\":0\x7d]",
      [("LLC[0].occupancy", "n/a"), ("LLC[0].occupancy", "n/a")]) := by
  constructor <;> decide +kernel

end Board

end ActivityBoard
