import ActivityBoard.Display.Field
import ActivityBoard.Json.Printer
import ActivityBoard.Metric

/-!
Rendering a document for display: numbers and texts under the keys that `classify` knows become
texts with units, and nothing else changes. A text that is no number stays and is reported.
-/
namespace ActivityBoard.Display

inductive Step where
  | field (key : String)
  | item (index : Nat)
deriving DecidableEq

abbrev Path := List Step

/-- A path goes on with a point and a key, or an index in brackets; nothing stands before the first
key. -/
def Step.extend (path : String) : Step → String
  | .field key => if path = "" then key else path ++ "." ++ key
  | .item index => path ++ "[" ++ Nat.repr index ++ "]"

def pathText (path : Path) : String := path.foldl Step.extend ""

structure FieldError where
  path : Path
  field : String
  value : String
deriving DecidableEq

def FieldError.message (e : FieldError) : String :=
  pathText e.path ++ ": \x60" ++ e.field ++ "\x60 is not numeric: " ++ e.value

/-- How a number or text is rendered. Percentages are rounded already and keep their digits. -/
def render? (kind : FieldKind) (context : Context) (v : Json) : Option String :=
  match kind, v with
  | .percent, .str s => match Metric.ofText s with
    | .number _ => some (percent s)
    | .malformed _ => none
  | .percent, v => (Json.numberText? v).map percent
  | kind, v => (Json.reading? v).map (kind.render context)

def annotateScalar (kind : FieldKind) (context : Context) (path : Path) (key : String) (v : Json) :
    Json × List FieldError :=
  match render? kind context v, v with
  | some text, _ => (.str text, [])
  | none, .str s => (v, [⟨path, key, s⟩])
  | none, _ => (v, [])

def isScalar : Json → Bool
  | .int _ => true
  | .float _ => true
  | .str _ => true
  | _ => false

mutual

def annotateAt (context : Context) (path : Path) : Json → Json × List FieldError
  | .obj fields =>
    let (fields, errors) := annotateFields context path fields
    (.obj fields, errors)
  | .arr items =>
    let (items, errors) := annotateItems context path 0 items
    (.arr items, errors)
  | v => (v, [])

def annotateFields (context : Context) (path : Path) :
    List (String × Json) → List (String × Json) × List FieldError
  | [] => ([], [])
  | (key, v) :: rest =>
    let here := path ++ [.field key]
    let (v, errors) := match isScalar v, classify key with
      | true, some kind => annotateScalar kind context here key v
      | _, _ => annotateAt context here v
    let (rest, others) := annotateFields context path rest
    ((key, v) :: rest, errors ++ others)

def annotateItems (context : Context) (path : Path) (index : Nat) :
    List Json → List Json × List FieldError
  | [] => ([], [])
  | v :: rest =>
    let (v, errors) := annotateAt context (path ++ [.item index]) v
    let (rest, others) := annotateItems context path (index + 1) rest
    (v :: rest, errors ++ others)

end

def annotate (context : Context) (v : Json) : Json × List FieldError := annotateAt context [] v

end ActivityBoard.Display
