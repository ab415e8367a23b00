import ActivityBoard.Proofs.Display.Positions

namespace ActivityBoard.Display

namespace Node

variable {n : Node} {m : Measure} {context : Context}

theorem of_measure? (h : n.measure? = some m) : n.content = .scalar m.value ∧
    isScalar m.value = true ∧ n.path.getLast? = some (.field m.key) ∧
    classify m.key = some m.kind := by
  unfold measure? at h
  split at h
  · rename_i key v hpath hcontent
    split at h
    · rename_i hv
      obtain ⟨kind, hkind, rfl⟩ := Option.map_eq_some_iff.1 h
      exact ⟨hcontent, hv, hpath, hkind⟩
    · cases h
  · cases h

theorem measure?_eq_some {path : Path} {key : String} {kind : FieldKind} {v : Json}
    (hpath : path.getLast? = some (.field key)) (hkey : classify key = some kind)
    (hv : isScalar v = true) : (Node.mk path (.scalar v)).measure? = some ⟨key, kind, v⟩ := by
  simp [measure?, hpath, hkey, hv]

/-- A measure that is a number becomes a text that is none. -/
theorem rendered_of_number (context : Context) (h : n.measure? = some m) (hm : m.isNumber = true) :
    ∃ text, Metric.ofText text = .malformed text ∧
      n.rendered context = ⟨n.path, .scalar (.str text)⟩ := by
  obtain ⟨_, hv, _, _⟩ := of_measure? h
  have hsome : (render? m.kind context m.value).isSome = true := (isSome_render? hv ..).trans hm
  obtain ⟨text, htext⟩ := Option.isSome_iff_exists.1 hsome
  refine ⟨text, ofText_of_render? htext, ?_⟩
  simp only [rendered, h, Option.bind_some, htext]

theorem rendered_of_malformed (h : n.measure? = some m) (hm : m.isNumber = false) :
    n.rendered context = n := by
  obtain ⟨_, hv, _, _⟩ := of_measure? h
  have hnone : render? m.kind context m.value = none := by
    rw [← Option.not_isSome_iff_eq_none, isSome_render? hv]
    exact Bool.not_eq_true _ ▸ hm
  simp only [rendered, h, Option.bind_some, hnone]

theorem rendered_ne_iff :
    n.rendered context ≠ n ↔ ∃ m, n.measure? = some m ∧ m.isNumber = true := by
  constructor
  · intro hne
    cases h : n.measure? with
    | none => exact absurd (rendered_of_none h) hne
    | some m =>
      cases hm : m.isNumber with
      | false => exact absurd (rendered_of_malformed h hm) hne
      | true => exact ⟨m, rfl, hm⟩
  · rintro ⟨m, h, hm⟩ he
    obtain ⟨text, htext, hrendered⟩ := rendered_of_number context h hm
    obtain ⟨hcontent, _⟩ := of_measure? h
    -- Were the text its own rendering, it would be a number and none.
    rw [← he, hrendered] at hcontent
    injection hcontent with hv
    rw [Measure.isNumber, ← hv] at hm
    simp [Json.reading?, Metric.ofJson?, htext, Metric.value?] at hm

theorem error?_of_malformed {text : String} (h : n.measure? = some m) (hm : m.value = .str text)
    (htext : Metric.ofText text = .malformed text) : n.error? = some ⟨n.path, m.key, text⟩ := by
  have hnumber : m.isNumber = false := by
    simp [Measure.isNumber, hm, Json.reading?, Metric.ofJson?, htext, Metric.value?]
  simp [error?, h, Measure.malformed?, hnumber, hm, Json.str?]

theorem exists_of_malformed (h : n.measure? = some m) (hm : m.isNumber = false) :
    ∃ text, m.value = .str text ∧ Metric.ofText text = .malformed text := by
  obtain ⟨_, hv, _, _⟩ := of_measure? h
  rw [Measure.isNumber] at hm
  cases hw : m.value with
  | str s =>
    refine ⟨s, rfl, ?_⟩
    rw [hw] at hm
    cases hs : Metric.ofText s with
    | number x => simp [Json.reading?, Metric.ofJson?, hs, Metric.value?] at hm
    | malformed t => rw [Metric.eq_of_ofText_malformed hs]
  | int i =>
    rw [hw] at hm
    cases hm
  | float x =>
    rw [hw] at hm
    cases hm
  | _ =>
    rw [hw] at hv
    cases hv

end Node

/-- What annotation makes of the document `v`. -/
structure Annotates (context : Context) (v out : Json) (errors : List FieldError) : Prop where
  rendered : nodes [] out = (nodes [] v).map (Node.rendered context)
  /-- No other document has these nodes. -/
  determined : ∀ w, nodes [] w = nodes [] out → w = out
  changed : ∀ n ∈ nodes [] v,
    n.rendered context ≠ n ↔ ∃ m, n.measure? = some m ∧ m.isNumber = true
  texts : ∀ n ∈ nodes [] v, n.rendered context ≠ n →
    ∃ text, n.rendered context = ⟨n.path, .scalar (.str text)⟩
  reported : errors = (nodes [] v).filterMap Node.error?
  paths : ∀ e ∈ errors, pathText e.path = e.path.dotted
  order : v.Canonical → InOrder (nodes [] v)

theorem renders_annotate (context : Context) (v : Json) :
    Renders context [] v (annotate context v) :=
  renders_annotateAt context [] v rfl

theorem annotation_renders_measures (context : Context) (v : Json) :
    Annotates context v (annotate context v).1 (annotate context v).2 where
  rendered := (renders_annotate context v).1
  determined _ h := nodes_injective [] h
  changed _ _ := Node.rendered_ne_iff
  texts n _ hne := by
    obtain ⟨m, hm, hnumber⟩ := Node.rendered_ne_iff.1 hne
    obtain ⟨text, _, hrendered⟩ := Node.rendered_of_number context hm hnumber
    exact ⟨text, hrendered⟩
  reported := (renders_annotate context v).2
  paths e _ := pathText_eq_dotted e.path
  order h := inOrder_nodes [] v h

def mixed : Json :=
  .obj [("LLC", .arr [.obj [("occupancy", .str "unknown")], .str "7"]),
    ("rsz", .obj [("wsz", .str " 2048 ")])]

theorem annotation_renders_mixed :
    let context : Context := ⟨450, 100⟩
    mixed.Canonical ∧
      Annotates context mixed (annotate context mixed).1 (annotate context mixed).2 ∧
      (annotate context mixed).1.compact =
        "\x7b\"LLC\":[\x7b\"occupancy\":\"unknown\"\x7d,\"7\"]," ++
          "\"rsz\":\x7b\"wsz\":\"2.0KB\"\x7d\x7d" ∧
      (annotate context mixed).2.map FieldError.message =
        ["LLC[0].occupancy: \x60occupancy\x60 is not numeric: unknown"] := by
  intro context
  have hmixed : mixed.Canonical := by
    have hkeys : "LLC" < "rsz" := by decide
    simp only [mixed, Json.canonical_obj_iff, Json.canonical_arr_iff, Fields.Ascending,
      List.pairwise_cons, List.Pairwise.nil, List.forall_mem_cons, Json.Canonical.str, hkeys,
      List.not_mem_nil, false_implies, implies_true, and_self]
  exact ⟨hmixed, annotation_renders_measures context mixed, by decide +kernel, by decide +kernel⟩

/-- A node that is annotated again stays, and is reported if it is a measure. -/
theorem rendered_again (first second : Context) (n : Node) :
    (n.rendered first).rendered second = n.rendered first ∧
      (n.rendered first).error?.map (fun e => (e.path, e.field)) =
        n.measure?.map fun m => (n.path, m.key) := by
  cases h : n.measure? with
  | none =>
    rw [Node.rendered_of_none h, Node.rendered_of_none h, Node.error?_of_none h]
    exact ⟨rfl, rfl⟩
  | some m =>
    cases hm : m.isNumber with
    | false =>
      obtain ⟨text, hvalue, htext⟩ := Node.exists_of_malformed h hm
      rw [Node.rendered_of_malformed h hm, Node.rendered_of_malformed h hm,
        Node.error?_of_malformed h hvalue htext]
      exact ⟨rfl, rfl⟩
    | true =>
      obtain ⟨text, htext, hrendered⟩ := Node.rendered_of_number first h hm
      obtain ⟨_, _, hpath, hkey⟩ := Node.of_measure? h
      have hagain := Node.measure?_eq_some (v := .str text) hpath hkey rfl
      rw [hrendered, Node.error?_of_malformed hagain rfl htext]
      have hnumber : Measure.isNumber ⟨m.key, m.kind, .str text⟩ = false := by
        simp [Measure.isNumber, Json.reading?, Metric.ofJson?, htext, Metric.value?]
      exact ⟨Node.rendered_of_malformed hagain hnumber, rfl⟩

theorem second_annotation_only_reports (v : Json) (first second : Context) :
    (annotate second (annotate first v).1).1 = (annotate first v).1 ∧
    (annotate second (annotate first v).1).2.map (fun e => (e.path, e.field)) =
      (nodes [] v).filterMap (fun n => n.measure?.map fun m => (n.path, m.key)) ∧
    (∀ (kind : FieldKind) (context : Context) (x : Binary64),
      Metric.ofText (kind.render context x) = .malformed (kind.render context x)) ∧
    ∀ text, Metric.ofText (percent text) = .malformed (percent text) := by
  obtain ⟨hfirst, _⟩ := renders_annotate first v
  obtain ⟨hsecond, herrors⟩ := renders_annotate second (annotate first v).1
  refine ⟨?_, ?_, ?_, ?_⟩
  · apply nodes_injective []
    rw [hsecond, hfirst, List.map_map]
    apply List.map_congr_left
    intro n _
    exact (rendered_again first second n).1
  · rw [herrors, hfirst, List.map_filterMap, List.filterMap_map]
    congr 1
    funext n
    exact (rendered_again first second n).2
  · intro kind context x
    exact ofText_of_endsUnit (endsUnit_render kind context x)
  · intro text
    exact ofText_of_endsUnit (endsUnit_percent text)

end ActivityBoard.Display
