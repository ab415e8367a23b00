import ActivityBoard.Proofs.Display.Units
import ActivityBoard.Proofs.Json.Canonical

/-!
A document as the list of its nodes, in the order in which annotation comes to them. Annotating it
renders some of its nodes in place, so what happens to one node says what happens to all of it.
-/
namespace ActivityBoard.Display

inductive Content where
  | scalar (v : Json)
  | items (count : Nat)
  | keys (keys : List String)

structure Node where
  path : Path
  content : Content

mutual

/-- All values in a document, each in front of the values in it. -/
def nodes (path : Path) : Json → List Node
  | .obj fields => ⟨path, .keys (fields.map Prod.fst)⟩ :: fieldNodes path fields
  | .arr items => ⟨path, .items items.length⟩ :: itemNodes path 0 items
  | v => [⟨path, .scalar v⟩]

def fieldNodes (path : Path) : List (String × Json) → List Node
  | [] => []
  | (key, v) :: rest => nodes (path ++ [.field key]) v ++ fieldNodes path rest

def itemNodes (path : Path) (index : Nat) : List Json → List Node
  | [] => []
  | v :: rest => nodes (path ++ [.item index]) v ++ itemNodes path (index + 1) rest

end

/-- A number or text under a key that says what it measures. -/
structure Measure where
  key : String
  kind : FieldKind
  value : Json

namespace Measure

def isNumber (m : Measure) : Bool := (Json.reading? m.value).isSome

def malformed? (m : Measure) : Option String := if m.isNumber then none else m.value.str?

end Measure

namespace Node

def measure? (n : Node) : Option Measure :=
  match n.path.getLast?, n.content with
  | some (.field key), .scalar v =>
    if isScalar v then (classify key).map fun kind => ⟨key, kind, v⟩ else none
  | _, _ => none

def rendered (context : Context) (n : Node) : Node :=
  match n.measure?.bind fun m => render? m.kind context m.value with
  | some text => { n with content := .scalar (.str text) }
  | none => n

def error? (n : Node) : Option FieldError :=
  n.measure?.bind fun m => m.malformed?.map fun text => ⟨n.path, m.key, text⟩

end Node

section Rendering

variable {kind : FieldKind} {context : Context} {v : Json} {text : String}

theorem isSome_render? (h : isScalar v = true) (kind : FieldKind) (context : Context) :
    (render? kind context v).isSome = (Json.reading? v).isSome := by
  cases v with
  | str s =>
    have hread : Json.reading? (.str s) = (Metric.ofText s).value? := rfl
    rw [hread]
    cases kind with
    | percent =>
      rw [render?]
      cases Metric.ofText s <;> rfl
    | _ => exact Option.isSome_map
  | int n => cases kind <;> rfl
  | float x => cases kind <;> rfl
  | _ => cases h

theorem ofText_of_render? (h : render? kind context v = some text) :
    Metric.ofText text = .malformed text := by
  apply ofText_of_endsUnit
  unfold render? at h
  split at h
  · split at h
    · cases h
      exact endsUnit_percent _
    · cases h
  · obtain ⟨s, _, rfl⟩ := Option.map_eq_some_iff.1 h
    exact endsUnit_percent s
  · obtain ⟨x, _, rfl⟩ := Option.map_eq_some_iff.1 h
    exact endsUnit_render kind context x

end Rendering

section Annotation

variable (context : Context) (path : Path)

theorem annotateAt_obj (fields : Fields) : annotateAt context path (.obj fields) =
    (.obj (annotateFields context path fields).1, (annotateFields context path fields).2) := by
  rw [annotateAt]

theorem annotateAt_arr (items : List Json) : annotateAt context path (.arr items) =
    (.arr (annotateItems context path 0 items).1, (annotateItems context path 0 items).2) := by
  rw [annotateAt]

def annotateField (key : String) (v : Json) : Json × List FieldError :=
  match isScalar v, classify key with
  | true, some kind => annotateScalar kind context path key v
  | _, _ => annotateAt context path v

theorem annotateField_of_render? {kind : FieldKind} {key rendered : String} {v : Json}
    (hv : isScalar v = true) (hkey : classify key = some kind)
    (h : render? kind context v = some rendered) :
    annotateField context path key v = (.str rendered, []) := by
  rw [annotateField, hv, hkey]
  simp only [annotateScalar, h]

theorem annotateFields_cons (key : String) (v : Json) (rest : Fields) :
    annotateFields context path ((key, v) :: rest) =
      ((key, (annotateField context (path ++ [.field key]) key v).1) ::
          (annotateFields context path rest).1,
        (annotateField context (path ++ [.field key]) key v).2 ++
          (annotateFields context path rest).2) := by
  rw [annotateFields]
  rfl

theorem get?_annotateFields (fields : Fields) (key : String) :
    Fields.get? (annotateFields context path fields).1 key = (fields.get? key).map fun v =>
      (annotateField context (path ++ [.field key]) key v).1 := by
  induction fields with
  | nil => simp [annotateFields, Fields.get?]
  | cons field rest ih =>
    obtain ⟨k, v⟩ := field
    rw [annotateFields_cons, Fields.get?_cons, Fields.get?_cons, ih]
    split
    · rename_i hkey
      rw [hkey]
      rfl
    · rfl

theorem annotateItems_cons (index : Nat) (v : Json) (rest : List Json) :
    annotateItems context path index (v :: rest) =
      ((annotateAt context (path ++ [.item index]) v).1 ::
          (annotateItems context path (index + 1) rest).1,
        (annotateAt context (path ++ [.item index]) v).2 ++
          (annotateItems context path (index + 1) rest).2) := by
  rw [annotateItems]

theorem keys_annotateFields (fields : Fields) :
    (annotateFields context path fields).1.map Prod.fst = fields.map Prod.fst := by
  induction fields with
  | nil => rfl
  | cons field rest ih =>
    obtain ⟨key, v⟩ := field
    rw [annotateFields_cons, List.map_cons, List.map_cons, ih]

theorem length_annotateItems (index : Nat) (items : List Json) :
    (annotateItems context path index items).1.length = items.length := by
  induction items generalizing index with
  | nil => rfl
  | cons v rest ih => rw [annotateItems_cons, List.length_cons, List.length_cons, ih]

/-- What annotation makes of a value: its nodes rendered one by one, and their faults. -/
def Renders (v : Json) (result : Json × List FieldError) : Prop :=
  nodes path result.1 = (nodes path v).map (Node.rendered context) ∧
    result.2 = (nodes path v).filterMap Node.error?

variable {context path}

theorem Node.measure?_keys (path : Path) (keys : List String) :
    (Node.mk path (.keys keys)).measure? = none := by
  unfold measure?
  split
  · contradiction
  · rfl

theorem Node.measure?_items (path : Path) (count : Nat) :
    (Node.mk path (.items count)).measure? = none := by
  unfold measure?
  split
  · contradiction
  · rfl

theorem Node.measure?_of_unclassified {key : String} {v : Json}
    (h : ∀ kind, isScalar v = true → classify key = some kind → False) :
    (Node.mk (path ++ [.field key]) (.scalar v)).measure? = none := by
  cases hv : isScalar v with
  | false => simp [measure?, hv]
  | true =>
    have hk : classify key = none := by
      apply Option.eq_none_iff_forall_ne_some.2
      intro kind hk
      exact h kind hv hk
    simp [measure?, hv, hk]

theorem Node.rendered_of_none {n : Node} (h : n.measure? = none) : n.rendered context = n := by
  rw [rendered, h]
  rfl

theorem Node.error?_of_none {n : Node} (h : n.measure? = none) : n.error? = none := by
  rw [error?, h]
  rfl

theorem nodes_of_isScalar {v : Json} (h : isScalar v = true) :
    nodes path v = [⟨path, .scalar v⟩] := by
  cases v with
  | arr items => cases h
  | obj fields => cases h
  | _ => rfl

theorem renders_annotateScalar (context : Context) (path : Path) {key : String}
    {kind : FieldKind} {v : Json}
    (hv : isScalar v = true) (hk : classify key = some kind) :
    Renders context (path ++ [.field key]) v
      (annotateScalar kind context (path ++ [.field key]) key v) := by
  have hm : (Node.mk (path ++ [.field key]) (.scalar v)).measure? = some ⟨key, kind, v⟩ := by
    simp [Node.measure?, hv, hk]
  have hsome := isSome_render? hv kind context
  unfold Renders annotateScalar
  rw [nodes_of_isScalar hv, List.map_singleton, Node.rendered, hm, Option.bind_some]
  -- A text that is not rendered is the fault; every number is rendered.
  cases hr : render? kind context v with
  | some text =>
    rw [hr] at hsome
    refine ⟨rfl, ?_⟩
    simp [Node.error?, hm, Measure.malformed?, Measure.isNumber, ← hsome]
  | none =>
    rw [hr] at hsome
    cases v with
    | str s =>
      refine ⟨rfl, ?_⟩
      simp [Node.error?, hm, Measure.malformed?, Measure.isNumber, ← hsome, Json.str?]
    | int n => cases hsome
    | float x => cases hsome
    | _ => cases hv

theorem renders_leaf {v : Json} (hm : (Node.mk path (.scalar v)).measure? = none)
    (hv : nodes path v = [⟨path, .scalar v⟩]) : Renders context path v (v, []) := by
  unfold Renders
  rw [hv, List.map_singleton, Node.rendered_of_none hm,
    List.filterMap_cons_none (Node.error?_of_none hm)]
  exact ⟨rfl, rfl⟩

mutual

theorem renders_annotateAt (context : Context) (path : Path) :
    (v : Json) → (Node.mk path (.scalar v)).measure? = none →
      Renders context path v (annotateAt context path v)
  | .obj fields, _ => by
    obtain ⟨hnodes, herrors⟩ := renders_annotateFields context path fields
    have hm := Node.measure?_keys path (fields.map Prod.fst)
    rw [annotateAt_obj]
    unfold Renders
    rw [nodes, nodes, keys_annotateFields, List.map_cons, Node.rendered_of_none hm, hnodes,
      List.filterMap_cons_none (Node.error?_of_none hm), herrors]
    exact ⟨rfl, rfl⟩
  | .arr items, _ => by
    obtain ⟨hnodes, herrors⟩ := renders_annotateItems context path 0 items
    have hm := Node.measure?_items path items.length
    rw [annotateAt_arr]
    unfold Renders
    rw [nodes, nodes, length_annotateItems, List.map_cons, Node.rendered_of_none hm, hnodes,
      List.filterMap_cons_none (Node.error?_of_none hm), herrors]
    exact ⟨rfl, rfl⟩
  | .null, h => renders_leaf h rfl
  | .bool _, h => renders_leaf h rfl
  | .int _, h => renders_leaf h rfl
  | .float _, h => renders_leaf h rfl
  | .str _, h => renders_leaf h rfl

theorem renders_annotateFields (context : Context) (path : Path) : (fields : Fields) →
    fieldNodes path (annotateFields context path fields).1 =
        (fieldNodes path fields).map (Node.rendered context) ∧
      (annotateFields context path fields).2 = (fieldNodes path fields).filterMap Node.error?
  | [] => ⟨rfl, rfl⟩
  | (key, v) :: rest => by
    obtain ⟨hrest, hothers⟩ := renders_annotateFields context path rest
    have hv := renders_annotateAt context (path ++ [.field key]) v
    have hfield : Renders context (path ++ [.field key]) v
        (annotateField context (path ++ [.field key]) key v) := by
      unfold annotateField
      split
      · rename_i kind hscalar hkind
        exact renders_annotateScalar context path hscalar hkind
      · rename_i hnone
        exact hv (Node.measure?_of_unclassified hnone)
    rw [annotateFields_cons, fieldNodes, fieldNodes, List.map_append, List.filterMap_append,
      hrest, hothers, hfield.1, hfield.2]
    exact ⟨rfl, rfl⟩

theorem renders_annotateItems (context : Context) (path : Path) (index : Nat) :
    (items : List Json) →
    itemNodes path index (annotateItems context path index items).1 =
        (itemNodes path index items).map (Node.rendered context) ∧
      (annotateItems context path index items).2 =
        (itemNodes path index items).filterMap Node.error?
  | [] => ⟨rfl, rfl⟩
  | v :: rest => by
    obtain ⟨hrest, hothers⟩ := renders_annotateItems context path (index + 1) rest
    obtain ⟨hnodes, herrors⟩ := renders_annotateAt context (path ++ [.item index]) v
      (by simp [Node.measure?])
    rw [annotateItems_cons, itemNodes, itemNodes, List.map_append, List.filterMap_append, hrest,
      hothers, hnodes, herrors]
    exact ⟨rfl, rfl⟩

end

end Annotation

end ActivityBoard.Display
