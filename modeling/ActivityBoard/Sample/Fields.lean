import ActivityBoard.Metric

/-!
Typed access to the fields of a sample. An absent field reads like `null`, so every counter is zero
until the sample says otherwise; only texts, lists and objects have a shape that can be wrong.
-/
namespace ActivityBoard.Fields

def value (fields : Fields) (key : String) : Json := (fields.get? key).getD .null

def text? (fields : Fields) (key : String) : Option String :=
  match fields.get? key with
  | none => some ""
  | some v => v.str?

def metric? (fields : Fields) (key : String) : Option Metric := Metric.ofJson? (fields.value key)

def rows? {α : Type} (row : Fields → Option α) (fields : Fields) (key : String) :
    Option (List α) :=
  match fields.get? key with
  | none => some []
  | some v => do
    let items ← v.items?
    items.mapM fun item => item.fields?.bind row

def section? {α : Type} (make : Fields → α) (fields : Fields) (key : String) : Option (Option α) :=
  match fields.value key with
  | .null => some none
  | .obj inner => some (some (make inner))
  | _ => none

def required? {α : Type} (make : Fields → α) (fields : Fields) (key : String) : Option α :=
  match fields.get? key with
  | none => some (make [])
  | some v => v.fields?.map make

end ActivityBoard.Fields
