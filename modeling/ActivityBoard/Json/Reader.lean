import ActivityBoard.Json.Scalar

/-!
Reading JSON text. Reading goes from left to right and ends at the first fault. A value may also be
passed over without being read; then it must be written like JSON, but need not make sense.
-/
namespace ActivityBoard.Json

inductive TextError where
  | notJson
  | wrongShape
deriving DecidableEq

abbrev Reading (α : Type) := List Char → Except TextError (α × List Char)

/-- Reads values: `fuel` bounds the entries of one container, and `depth` how deep containers
nest. -/
abbrev Reader (α : Type) := (fuel depth : Nat) → Reading α

def isBlank (c : Char) : Bool := c == ' ' || c == '\t' || c == '\n' || c == '\r'

def skipBlanks (cs : List Char) : List Char := cs.dropWhile isBlank

def readLeaf : Reading Json := fun cs =>
  match readScalar cs with
  | none => .error .notJson
  | some (scalar, rest) =>
    match scalar.value? with
    | none => .error .notJson
    | some v => .ok (v, rest)

/-- Entries with commas between them up to `close`, at most `fuel` of them. How an entry is read may
depend on those in front of it, of which the latest comes first. -/
def readEntries {α : Type} (entry : List α → Reading α) (close : Char) :
    Nat → List α → Reading (List α)
  | 0, _, _ => .error .notJson
  | fuel + 1, earlier, cs => do
    let (x, rest) ← entry earlier (skipBlanks cs)
    match skipBlanks rest with
    | [] => .error .notJson
    | c :: rest =>
      if c = close then .ok ([x], rest)
      else if c = ',' then do
        let (xs, rest) ← readEntries entry close fuel (x :: earlier) rest
        .ok (x :: xs, rest)
      else .error .notJson

def readContainer {α : Type} (entry : List α → Reading α) (close : Char) (fuel : Nat) :
    Reading (List α) := fun cs =>
  match skipBlanks cs with
  | [] => .error .notJson
  | c :: rest => if c = close then .ok ([], rest) else readEntries entry close fuel [] cs

def afterColon (cs : List Char) : Except TextError (List Char) :=
  match skipBlanks cs with
  | ':' :: rest => .ok (skipBlanks rest)
  | _ => .error .notJson

/-- A key, a colon and a value. The key decides how the value is read, and whether it is at all. -/
def readField {α : Type} (value : String → Except TextError (Reading α)) : Reading (String × α)
  | '"' :: cs =>
    match readPieces cs with
    | none => .error .notJson
    | some (pieces, rest) =>
      match text? pieces with
      | none => .error .notJson
      | some key => do
        let read ← value key
        let rest ← afterColon rest
        let (v, rest) ← read rest
        .ok ((key, v), rest)
  | _ => .error .notJson

def readValue (fuel : Nat) : Nat → Reading Json
  | 0, '[' :: _ => .error .notJson
  | 0, '{' :: _ => .error .notJson
  | depth + 1, '[' :: rest => do
    let (items, rest) ← readContainer (fun _ => readValue fuel depth) ']' fuel rest
    .ok (.arr items, rest)
  | depth + 1, '{' :: rest => do
    let (fields, rest) ←
      readContainer (fun _ => readField fun _ => .ok (readValue fuel depth)) '}' fuel rest
    .ok (.obj (Fields.ofList fields), rest)
  | _, cs => readLeaf cs

def skipField (value : Reading Unit) : Reading Unit
  | '"' :: cs =>
    match readPieces cs with
    | none => .error .notJson
    | some (_, rest) => do
      let rest ← afterColon rest
      value rest
  | _ => .error .notJson

def skipValue (fuel : Nat) : Nat → Reading Unit
  | 0, _ => .error .notJson
  | depth + 1, '[' :: rest => do
    let (_, rest) ← readContainer (fun _ => skipValue fuel depth) ']' fuel rest
    .ok ((), rest)
  | depth + 1, '{' :: rest => do
    let (_, rest) ← readContainer (fun _ => skipField (skipValue fuel depth)) '}' fuel rest
    .ok ((), rest)
  | _, cs =>
    match readScalar cs with
    | none => .error .notJson
    | some (_, rest) => .ok ((), rest)

def depthLimit : Nat := 127

def decodeText {α : Type} (read : Reader α) (text : String) : Except TextError α := do
  let cs := text.toList
  let (a, rest) ← read cs.length depthLimit (skipBlanks cs)
  if (skipBlanks rest).isEmpty then .ok a else .error .notJson

def ofText? (text : String) : Option Json := (decodeText readValue text).toOption

end ActivityBoard.Json
