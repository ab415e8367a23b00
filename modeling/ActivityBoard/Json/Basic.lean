import ActivityBoard.Binary64.Arithmetic

/-!
JSON values. An object is the list of its fields by ascending key; `Fields.get?` is the view in
which the operations on fields are to be read.
-/
namespace ActivityBoard

/-- A JSON value; integers that fit 64 bits stay apart from other numbers. -/
inductive Json where
  | null
  | bool (value : Bool)
  | int (value : Int)
  | float (value : Binary64)
  | str (value : String)
  | arr (items : List Json)
  | obj (fields : List (String × Json))
deriving Inhabited

abbrev Fields := List (String × Json)

namespace Fields

def get? (fields : Fields) (key : String) : Option Json := fields.lookup key

def insert (fields : Fields) (key : String) (value : Json) : Fields :=
  match fields with
  | [] => [(key, value)]
  | (k, v) :: rest =>
    if key = k then (key, value) :: rest
    else if key < k then (key, value) :: (k, v) :: rest
    else (k, v) :: insert rest key value

def insertAll (fields others : Fields) : Fields :=
  others.foldl (fun acc field => acc.insert field.1 field.2) fields

/-- The object with these fields; of a repeated key the last value counts. -/
def ofList (fields : List (String × Json)) : Fields := insertAll [] fields

def without (fields : Fields) (keys : List String) : Fields :=
  fields.filter fun field => !keys.contains field.1

end Fields

namespace Json

def greatestInt : Int := 18446744073709551615

def leastInt : Int := -9223372036854775808

def ofFloat (x : Binary64) : Json := if x.isFinite then .float x else .null

/-- A metric as a document holds it: integral values below `9·10^15` as integers. -/
def ofMetric (x : Binary64) : Json :=
  if x.isInteger && decide (x.abs < 9000000000000000) then .int x.value.floor else ofFloat x

def fields? : Json → Option Fields
  | .obj fields => some fields
  | _ => none

def items? : Json → Option (List Json)
  | .arr items => some items
  | _ => none

def str? : Json → Option String
  | .str s => some s
  | _ => none

end Json

end ActivityBoard
