import ActivityBoard.Json.Reader

/-!
Reading JSON text whose shape is known beforehand: scalars of one kind, lists, and rows. A value of
another shape is a fault as soon as it begins, whatever the text is like further on.
-/
namespace ActivityBoard.Json

def Reader.decode {α β : Type} (read : Reader α) (make : α → Option β) : Reader β :=
  fun fuel depth cs => do
    let (a, rest) ← read fuel depth cs
    match make a with
    | some b => .ok (b, rest)
    | none => .error .wrongShape

def scalarValue : Reader Json
  | _, _, '[' :: _ => .error .wrongShape
  | _, _, '{' :: _ => .error .wrongShape
  | _, _, cs => readLeaf cs

def stringValue : Reader String := scalarValue.decode Json.str?

/-- The fault of a text that starts with a scalar, or with a container of the wrong kind. -/
def misfit (cs : List Char) : TextError :=
  match scalarValue 0 0 cs with
  | .error e => e
  | .ok _ => .wrongShape

def listOf {α : Type} (item : Reader α) : Reader (List α)
  | _, 0, '[' :: _ => .error .notJson
  | fuel, depth + 1, '[' :: rest => readContainer (fun _ => item fuel depth) ']' fuel rest
  | _, _, cs => .error (misfit cs)

/-- What is known of a row. A key that has a meaning stands in it only once; under any other key the
last value counts. -/
structure RowShape where
  keys : List String
  /-- Those of them under which a string must stand; under the others any value may. -/
  strings : List String := []
  /-- Whether values under other keys are kept; else they are passed over. -/
  isOpen : Bool := true

namespace RowShape

def value (shape : RowShape) (fuel depth : Nat) (earlier : Fields) (key : String) :
    Except TextError (Reading Json) :=
  if shape.keys.contains key then
    if earlier.any fun field => field.1 = key then .error .wrongShape
    else if shape.strings.contains key then
      .ok (stringValue.decode (fun s => some (.str s)) fuel depth)
    else .ok (readValue fuel depth)
  else if shape.isOpen then .ok (readValue fuel depth)
  else .ok (fun cs => (skipValue fuel fuel cs).map fun (_, rest) => (.null, rest))

def next (shape : RowShape) (fuel depth : Nat) (earlier : List Json) : Reading Json := fun cs =>
  if earlier.length < shape.keys.length then readValue fuel depth cs else .error .notJson

/-- Reads a row: an object, or, if other keys mean nothing to it, also a list of its values in the
order of the keys. -/
def fields (shape : RowShape) : Reader Fields
  | fuel, depth + 1, '{' :: rest => do
    let (entries, rest) ←
      readContainer (fun earlier => readField (shape.value fuel depth earlier)) '}' fuel rest
    .ok (Fields.ofList entries, rest)
  | fuel, depth + 1, '[' :: rest =>
    if shape.isOpen then .error .wrongShape
    else do
      let (items, rest) ← readContainer (shape.next fuel depth) ']' fuel rest
      .ok (Fields.ofList (shape.keys.zip items), rest)
  | _, _, cs => .error (misfit cs)

end RowShape

end ActivityBoard.Json
