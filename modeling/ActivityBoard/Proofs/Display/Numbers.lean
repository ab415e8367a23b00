import ActivityBoard.Proofs.Display.Nodes
import ActivityBoard.Proofs.Json.Scalar

namespace ActivityBoard

variable {text : String} {v w : Json} {before behind : List Char}

namespace Metric

variable {m : Metric}

theorem ofText_of_ofText? (h : Json.ofText? text = some v) (hv : v.isNumber = true)
    (hbefore : ∀ c ∈ before, Text.isBlank c = true)
    (hbehind : ∀ c ∈ behind, Text.isBlank c = true) :
    ∃ x, ofJson? v = some (.number x) ∧
      ofText (String.ofList before ++ text ++ String.ofList behind) = .number x := by
  obtain ⟨n, hn, spelled, hspells, lead, tail, hlead, htail, htext⟩ :=
    Json.numeral_of_ofText? h hv
  have hfront : ∀ c ∈ before ++ lead, Text.isBlank c = true :=
    List.forall_mem_append.2 ⟨hbefore, fun c hc => Json.text_isBlank_of_isBlank (hlead c hc)⟩
  have hback : ∀ c ∈ tail ++ behind, Text.isBlank c = true :=
    List.forall_mem_append.2 ⟨fun c hc => Json.text_isBlank_of_isBlank (htail c hc), hbehind⟩
  have hchars : (String.ofList before ++ text ++ String.ofList behind).toList =
      before ++ lead ++ (Decimal.signed n.negative spelled ++ (tail ++ behind)) := by
    simp [htext]
  refine ⟨n.number, Json.Numeral.ofJson?_of_value? hn, ofText_eq_number ?_⟩
  rw [hchars, Text.trim_surrounded hfront hspells.isBlank_signed hback]
  exact hspells.ofText?_signed

theorem decodeText_reader (h : Json.ofText? text = some v) (hm : ofJson? v = some m) :
    Json.decodeText reader text = .ok m := by
  have hscalar : v.items? = none ∧ v.fields? = none := by
    cases v with
    | arr items => cases hm
    | obj fields => cases hm
    | _ => exact ⟨rfl, rfl⟩
  refine Json.decodeText_congr (Json.decodeText_of_ofText? h) fun fuel depth cs rest hread => ?_
  have hleaf := Json.readLeaf_of_readValue hread hscalar.1 hscalar.2
  rw [reader, Json.Reader.decode, Json.scalarValue_of_readLeaf hleaf]
  simp only [bind, Except.bind, hm]

end Metric

namespace Display

/-- Every counter and average has the same value in both places. -/
structure CountsAlike (v w : Json) : Prop where
  count32 : v.count32 = w.count32
  count64 : v.count64 = w.count64
  int32 : v.int32 = w.int32
  int64 : v.int64 = w.int64
  real : v.real = w.real

/-- As a metric both values are one number, and so is every text of either of them. -/
def MetricsAlike (v w : Json) : Prop :=
  ∃ x, ∀ u ∈ [v, w], Metric.ofJson? u = some (.number x) ∧
    ∀ text, Json.ofText? text = some u → Json.decodeText Metric.reader text = .ok (.number x)

/-- Under every key whose numbers are given a unit both values are rendered, as one text, wherever
in a document the key stands. A percentage keeps the digits that it came with, so it is left out. -/
def RendersAlike (v w : Json) : Prop :=
  ∀ key kind, classify key = some kind → kind ≠ .percent → ∀ context path rest, ∃ text,
    ∀ u ∈ [v, w], annotateFields context path ((key, u) :: rest) =
      ((key, .str text) :: (annotateFields context path rest).1,
        (annotateFields context path rest).2)

variable {x : Binary64} {kind : FieldKind} {key : String}

theorem countsAlike_of_reading? (h : v.reading? = w.reading?) : CountsAlike v w := by
  constructor <;> simp only [Json.count32, Json.count64, Json.int32, Json.int64, Json.counter,
    Json.real, h]

theorem render?_of_ne_percent (h : kind ≠ .percent) (context : Context) (v : Json) :
    render? kind context v = v.reading?.map (kind.render context) := by
  cases kind with
  | percent => exact absurd rfl h
  | _ => rfl

theorem annotateFields_of_render? {context : Context} {rendered : String}
    (hv : isScalar v = true) (hkey : classify key = some kind)
    (h : render? kind context v = some rendered) (path : Path) (rest : Fields) :
    annotateFields context path ((key, v) :: rest) =
      ((key, .str rendered) :: (annotateFields context path rest).1,
        (annotateFields context path rest).2) := by
  rw [annotateFields_cons, annotateField_of_render? _ _ hv hkey h, List.nil_append]

theorem rendersAlike_of_reading? (hread : ∀ u ∈ [v, w], u.reading? = some x)
    (hscalar : ∀ u ∈ [v, w], isScalar u = true) : RendersAlike v w := by
  intro key kind hkey hkind context path rest
  refine ⟨kind.render context x, fun u hu => ?_⟩
  apply annotateFields_of_render? (hscalar u hu) hkey
  rw [render?_of_ne_percent hkind, hread u hu, Option.map_some]

/-- Whatever number a text writes, the same text in quotes, with blanks around it, is that number to
every counter and average, as a metric, and under every key whose numbers are given a unit. -/
theorem quoted_number_alike (h : Json.ofText? text = some v) (hv : v.isNumber = true)
    (hbefore : ∀ c ∈ before, Text.isBlank c = true)
    (hbehind : ∀ c ∈ behind, Text.isBlank c = true) :
    let quoted := Json.str (String.ofList before ++ text ++ String.ofList behind)
    CountsAlike v quoted ∧ MetricsAlike v quoted ∧ RendersAlike v quoted := by
  intro quoted
  obtain ⟨x, hx, hquoted⟩ := Metric.ofText_of_ofText? h hv hbefore hbehind
  have hscalar : isScalar v = true := by
    cases v with
    | int n => rfl
    | float y => rfl
    | _ => cases hv
  have hmetric : ∀ u ∈ [v, quoted], Metric.ofJson? u = some (.number x) :=
    List.forall_mem_cons.2 ⟨hx, List.forall_mem_singleton.2 (congrArg some hquoted)⟩
  have hread : ∀ u ∈ [v, quoted], u.reading? = some x := by
    intro u hu
    rw [Json.reading?, hmetric u hu]
    rfl
  refine ⟨?_, ⟨x, fun u hu => ⟨hmetric u hu, fun other hother => ?_⟩⟩, ?_⟩
  · exact countsAlike_of_reading? ((hread v (by simp)).trans (hread quoted (by simp)).symm)
  · exact Metric.decodeText_reader hother (hmetric u hu)
  · exact rendersAlike_of_reading? hread
      (List.forall_mem_cons.2 ⟨hscalar, List.forall_mem_singleton.2 rfl⟩)

/-- An integer that binary64 does not hold, behind a tab and in front of a no-break space. -/
theorem quoted_number_alike_past_53_bits :
    let v := Json.int (-9007199254740993)
    let quoted := Json.str (String.ofList ['\t'] ++ "-9007199254740993" ++ String.ofList ['\u00a0'])
    Json.ofText? "-9007199254740993" = some v ∧
      CountsAlike v quoted ∧ MetricsAlike v quoted ∧ RendersAlike v quoted := by
  have h : Json.ofText? "-9007199254740993" = some (.int (-9007199254740993)) := by rfl
  have htab : ∀ c ∈ ['\t'], Text.isBlank c = true := List.forall_mem_singleton.2 rfl
  have hspace : ∀ c ∈ ['\u00a0'], Text.isBlank c = true := List.forall_mem_singleton.2 rfl
  exact ⟨h, quoted_number_alike h rfl htab hspace⟩

end Display

end ActivityBoard
